import QuilrMcp.Library.JsonReading

/-! How far the reader comes: every value takes codes off the text, so its fuel is enough, and it meets
an integer that is too long exactly where everything before that integer can be read. -/
namespace QuilrMcp.Library.Json
open Text

/-- Something is taken off the text, and the last code of it is ASCII. -/
def Takes (text rest : Str) : Prop := ∃ taken last, text = taken ++ last::rest ∧ last < 128

theorem Takes.shorter {text rest : Str} (takes : Takes text rest) : rest.length < text.length := by
  obtain ⟨taken,last,rfl,-⟩ := takes
  rw [List.length_append,List.length_cons]
  omega

theorem Takes.one {code : Nat} (small : code < 128) (rest : Str) : Takes (code::rest) rest :=
  ⟨[],code,rfl,small⟩

theorem Takes.after {front text rest : Str} (takes : Takes text rest) :
    Takes (front ++ text) rest := by
  obtain ⟨taken,last,rfl,small⟩ := takes
  exact ⟨front ++ taken,last,by rw [List.append_assoc],small⟩

theorem Takes.trans {text middle rest : Str} (first : Takes text middle)
    (second : Takes middle rest) : Takes text rest := by
  obtain ⟨taken,last,rfl,-⟩ := first
  have later : Takes ((taken ++ [last]) ++ middle) rest := second.after
  rwa [List.append_assoc] at later

theorem Takes.suffix {text middle rest : Str} (suffix : middle <:+ text)
    (takes : Takes middle rest) : Takes text rest := by
  obtain ⟨front,rfl⟩ := suffix
  exact takes.after

private theorem skipSpace_suffix (text : Str) : skipSpace text <:+ text := List.dropWhile_suffix _

private theorem skipSpace_length (text : Str) : (skipSpace text).length ≤ text.length :=
  (skipSpace_suffix text).length_le

private theorem Takes.mark {text rest : Str} {code : Nat} (small : code < 128)
    (shape : skipSpace text = code::rest) :
    Takes text rest := by
  apply Takes.suffix (skipSpace_suffix text)
  rw [shape]
  exact Takes.one small rest

private theorem Takes.printed {text rest : Str} (printed : Printed text) (filled : text ≠ []) :
    Takes (text ++ rest) rest := by
  refine ⟨text.dropLast,text.getLast filled,?_,(printed _ (List.getLast_mem filled)).2⟩
  rw [← List.concat_append,List.concat_eq_append,List.dropLast_append_getLast filled]

section Progress
variable {ε : Type}

private theorem Scans.takes {text rest : Str} {units : List (Bool × Nat)}
    (scans : Scans text units rest) : Takes text rest := by
  induction scans with
  | closed => exact Takes.one (by decide) _
  | @numbered a b c d _ _ _ _ _ _ _ ih => exact Takes.suffix ⟨[backslash,117,a,b,c,d],rfl⟩ ih
  | @escaped letter _ _ _ _ _ _ _ ih => exact Takes.suffix ⟨[backslash,letter],rfl⟩ ih
  | plain _ _ _ _ ih => exact ih.suffix (List.suffix_cons _ _)

theorem scanString_takes {text value rest : Str}
    (read : scanString (ε := ε) text = .ok (value,rest)) : Takes text rest := by
  obtain ⟨units,scans,-⟩ := scanString_iff.mp read
  exact scans.takes

private theorem scanUnits_error (text : Str) (error : Error ε)
    (failed : scanUnits text = .error error) :
    ∃ message, error = .syntaxError message := by
  have step (unit : Bool × Nat) (tail : Str) (shorter : tail.length < text.length)
      (failed : consUnit unit (scanUnits tail) = .error error) :
      ∃ message, error = .syntaxError message := by
    cases later : scanUnits (ε := ε) tail with
    | ok pair =>
      rw [later] at failed
      contradiction
    | error error' =>
      rw [later] at failed
      cases failed
      exact scanUnits_error tail error later
  rw [scanUnits.eq_def] at failed
  split at failed
  · cases failed
    exact ⟨_,rfl⟩
  · rename_i code tail
    split_ifs at failed with closed escape control
    · split at failed
      · cases failed
        exact ⟨_,rfl⟩
      · rename_i letter tail
        split_ifs at failed with unicode
        · split at failed
          · rename_i a b c d tail
            split_ifs at failed with ended
            · cases failed
              exact ⟨_,rfl⟩
            · split at failed
              · exact step _ tail (by simp only [List.length_cons]; omega) failed
              · cases failed
                exact ⟨_,rfl⟩
          · cases failed
            exact ⟨_,rfl⟩
        · split at failed
          · exact step _ tail (by simp only [List.length_cons]; omega) failed
          · cases failed
            exact ⟨_,rfl⟩
    · cases failed
      exact ⟨_,rfl⟩
    · exact step _ tail (by simp) failed
termination_by text.length

/-- A string that cannot be scanned is a syntax error. -/
theorem scanString_error {text : Str} {error : Error ε} (failed : scanString text = .error error) :
    ∃ message, error = .syntaxError message := by
  simp only [scanString] at failed
  split at failed
  · contradiction
  · rename_i error' scanned
    cases failed
    exact scanUnits_error text error scanned

variable (format : FloatFormat) (hook : List (Str × Value) → Except ε (List (Str × Value)))

theorem constants_printed : ∀ constant ∈ constants, Printed constant.1 ∧ constant.1 ≠ [] := by
  simp only [constants,List.forall_mem_cons,Printed]
  decide

theorem readScalar_takes {text rest : Str} {value : Value}
    (read : readScalar (ε := ε) format text = .ok (value,rest)) :
    Takes text rest := by
  simp only [readScalar] at read
  split at read
  · rename_i name known found
    cases read
    have member := List.mem_of_find?_eq_some found
    have starts : name.isPrefixOf text = true := by simpa using List.find?_some found
    obtain ⟨more,rfl⟩ := List.isPrefixOf_iff_prefix.mp starts
    rw [List.drop_left]
    obtain ⟨printed,filled⟩ := constants_printed _ member
    exact Takes.printed printed filled
  · simp only [readNumber] at read
    split at read
    · contradiction
    · rename_i numeral left scanned
      have whole := scanNumber_text text left numeral scanned
      obtain ⟨printed,filled⟩ := scanNumber_printed scanned
      rw [← whole]
      split_ifs at read <;> cases read <;> exact Takes.printed printed filled

/-- A scalar that cannot be read is a syntax error or an integer that is too long. -/
theorem readScalar_error {text : Str} {error : Error ε}
    (failed : readScalar format text = .error error) :
    (∃ message, error = .syntaxError message) ∨
      (error = .valueError ∧ ∃ numeral rest, scanNumber text = some (numeral,rest) ∧
        numeral.isFloat = false ∧
        intMaxStrDigits < numeral.digits.length) := by
  simp only [readScalar] at failed
  split at failed
  · contradiction
  · simp only [readNumber] at failed
    split at failed
    · cases failed
      exact Or.inl ⟨_,rfl⟩
    · rename_i numeral rest scanned
      split_ifs at failed with float long
      cases failed
      exact Or.inr ⟨rfl,numeral,rest,scanned,by simpa using float,long⟩

/-- What is read takes something off the text. The induction is on the fuel, over the three functions. -/
theorem read_takes (fuel : Nat) :
    (∀ text value rest, readValue format hook fuel text = .ok (value,rest) → Takes text rest) ∧
    (∀ text items rest, readItems format hook fuel text = .ok (items,rest) → Takes text rest) ∧
    (∀ text members rest, readMembers format hook fuel text = .ok (members,rest) →
      Takes text rest) := by
  induction fuel with
  | zero => exact ⟨by simp [readValue],by simp [readItems],by simp [readMembers]⟩
  | succ fuel ih =>
    obtain ⟨onValue,onItems,onMembers⟩ := ih
    have behind {code : Nat} {tail rest : Str} (takes : Takes tail rest) : Takes
      (code::tail) rest :=
      takes.suffix (List.suffix_cons code tail)
    have inner {tail rest : Str} (takes : Takes (skipSpace tail) rest) : Takes tail rest :=
      takes.suffix (skipSpace_suffix tail)
    refine ⟨?_,?_,?_⟩
    · intro text value rest read
      cases readValue_iff.mp read with
      | string scanned => exact behind (scanString_takes scanned)
      | emptyList closed => exact behind (Takes.mark (by decide) closed)
      | list _ read' => exact behind (inner (onItems _ _ _ read'))
      | emptyDict closed _ => exact behind (Takes.mark (by decide) closed)
      | dict _ read' _ => exact behind (inner (onMembers _ _ _ read'))
      | scalar _ _ _ scalar => exact readScalar_takes format scalar
    · intro text items rest read
      cases readItems_iff.mp read with
      | last first closed => exact (onValue _ _ _ first).trans (Takes.mark (by decide) closed)
      | more first comma _ later =>
        have marked := (onValue _ _ _ first).trans (Takes.mark (by decide) comma)
        exact marked.trans (inner (onItems _ _ _ later))
    · intro text members rest read
      cases readMembers_iff.mp read with
      | last scanned colon first closed =>
        have key := (scanString_takes scanned).trans (Takes.mark (by decide) colon)
        exact behind
          (key.trans ((inner (onValue _ _ _ first)).trans (Takes.mark (by decide) closed)))
      | more scanned colon first comma _ later =>
        have key := (scanString_takes scanned).trans (Takes.mark (by decide) colon)
        have value := (inner (onValue _ _ _ first)).trans (Takes.mark (by decide) comma)
        exact behind (key.trans (value.trans (inner (onMembers _ _ _ later))))

/-- Fuel of twice the length is never used up, and more of it changes nothing. -/
theorem read_fueled (fuel more : Nat) (enough : fuel ≤ more) :
    (∀ text, 2 * text.length + 1 ≤ fuel → readValue format hook more text = readValue format hook fuel text ∧
      readValue format hook fuel text ≠ .error .outOfFuel) ∧
    (∀ text, 2 * text.length + 2 ≤ fuel → readItems format hook more text = readItems format hook fuel text ∧
      readItems format hook fuel text ≠ .error .outOfFuel) ∧
    (∀ text, 2 * text.length + 2 ≤ fuel → readMembers format hook more text = readMembers format hook fuel text ∧
      readMembers format hook fuel text ≠ .error .outOfFuel) := by
  induction fuel generalizing more with
  | zero => exact ⟨by omega,by omega,by omega⟩
  | succ fuel ih =>
    obtain ⟨more,rfl⟩ : ∃ other, more = other + 1 := ⟨more - 1,by omega⟩
    obtain ⟨onValue,onItems,onMembers⟩ := ih more (by omega)
    obtain ⟨valueTakes,itemsTake,membersTake⟩ := read_takes format hook fuel
    refine ⟨?_,?_,?_⟩
    · intro text bound
      rw [readValue.eq_def,readValue.eq_def format hook (fuel + 1)]
      dsimp only
      cases text with
      | nil => exact ⟨rfl,by simp⟩
      | cons code tail =>
        rw [List.length_cons] at bound
        have short := skipSpace_length tail
        obtain ⟨items,itemsEnd⟩ := onItems (skipSpace tail) (by omega)
        obtain ⟨members,membersEnd⟩ := onMembers (skipSpace tail) (by omega)
        dsimp only
        rw [items,members]
        refine ⟨rfl,?_⟩
        split_ifs with string list empty object bare
        · cases scanned : scanString (ε := ε) tail with
          | ok pair => simp
          | error error =>
            obtain ⟨message,rfl⟩ := scanString_error scanned
            simp
        · simp
        · cases read : readItems format hook fuel (skipSpace tail) with
          | ok pair => simp
          | error error => exact fun ended => itemsEnd (by rw [read]; exact congrArg _ (Except.error.inj ended))
        · cases hook [] <;> simp
        · cases read : readMembers format hook fuel (skipSpace tail) with
          | ok pair => cases hooked : hook pair.1 <;> simp [hooked]
          | error error => exact fun ended => membersEnd (by rw [read]; exact congrArg _ (Except.error.inj ended))
        · intro ended
          rcases readScalar_error format ended with ⟨message,other⟩ | ⟨other,-⟩ <;> contradiction
    · intro text bound
      obtain ⟨value,valueEnd⟩ := onValue text (by omega)
      rw [readItems,readItems,value]
      cases read : readValue format hook fuel text with
      | error error => exact ⟨rfl,fun ended => valueEnd (by rw [read]; exact congrArg _ (Except.error.inj ended))⟩
      | ok pair =>
        obtain ⟨item,left⟩ := pair
        have taken := (valueTakes _ _ _ read).shorter
        have trimmed := skipSpace_length left
        dsimp only
        cases shape : skipSpace left with
        | nil => exact ⟨rfl,by simp⟩
        | cons code tail =>
          rw [shape,List.length_cons] at trimmed
          have short := skipSpace_length tail
          obtain ⟨items,itemsEnd⟩ := onItems (skipSpace tail) (by omega)
          dsimp only
          rw [items]
          refine ⟨rfl,?_⟩
          split_ifs with close comma trailing
          · simp
          · simp
          · cases later : readItems format hook fuel (skipSpace tail) with
            | ok pair => simp
            | error error => exact fun ended => itemsEnd (by rw [later]; exact congrArg _ (Except.error.inj ended))
          · simp
    · intro text bound
      rw [readMembers.eq_def,readMembers.eq_def format hook (fuel + 1)]
      dsimp only
      cases text with
      | nil => exact ⟨rfl,by simp⟩
      | cons code tail =>
        rw [List.length_cons] at bound
        dsimp only
        split_ifs with quoted
        · cases scanned : scanString (ε := ε) tail with
          | error error =>
            obtain ⟨message,rfl⟩ := scanString_error scanned
            exact ⟨rfl,by simp⟩
          | ok pair =>
            obtain ⟨key,left⟩ := pair
            have taken := (scanString_takes scanned).shorter
            have trimmed := skipSpace_length left
            dsimp only
            cases shape : skipSpace left with
            | nil => exact ⟨rfl,by simp⟩
            | cons colon after =>
              rw [shape,List.length_cons] at trimmed
              have trimmed' := skipSpace_length after
              obtain ⟨value,valueEnd⟩ := onValue (skipSpace after) (by omega)
              dsimp only
              rw [value]
              split_ifs with separated
              · cases read : readValue format hook fuel (skipSpace after) with
                | error error => exact ⟨rfl,fun ended => valueEnd (by rw [read]; exact congrArg _ (Except.error.inj ended))⟩
                | ok pair =>
                  obtain ⟨value,left'⟩ := pair
                  have taken' := (valueTakes _ _ _ read).shorter
                  have trimmed'' := skipSpace_length left'
                  dsimp only
                  cases shape' : skipSpace left' with
                  | nil => exact ⟨rfl,by simp⟩
                  | cons code' tail' =>
                    rw [shape',List.length_cons] at trimmed''
                    have short := skipSpace_length tail'
                    obtain ⟨members,membersEnd⟩ := onMembers (skipSpace tail') (by omega)
                    dsimp only
                    rw [members]
                    refine ⟨rfl,?_⟩
                    split_ifs with close comma trailing
                    · simp
                    · simp
                    · cases later : readMembers format hook fuel (skipSpace tail') with
                      | ok pair => simp
                      | error error => exact fun ended => membersEnd (by rw [later]; exact congrArg _ (Except.error.inj ended))
                    · simp
              · exact ⟨rfl,by simp⟩
        · exact ⟨rfl,by simp⟩

/-- A value is read off the text, with fuel that is enough. -/
def Reads (text : Str) (value : Value) (rest : Str) : Prop :=
  readValue format hook (2 * text.length + 1) text = .ok (value,rest)

theorem reads_iff {fuel : Nat} {text rest : Str} {value : Value}
    (enough : 2 * text.length + 1 ≤ fuel) :
    Reads format hook text value rest ↔ readValue format hook fuel text = .ok (value,rest) := by
  rw [Reads,((read_fueled format hook _ fuel enough).1 text (Nat.le_refl _)).1]

mutual
/-- The reader of a value comes to an integer that is too long, and everything before it can be read. -/
inductive MeetsLong : Str → Prop
  | integer {text rest : Str} {numeral : Numeral} : scanNumber text = some (numeral,rest) →
      numeral.isFloat = false →
      intMaxStrDigits < numeral.digits.length → MeetsLong text
  | list {rest : Str} : (skipSpace rest).head? ≠ some 93 → MeetsLongItems (skipSpace rest) →
      MeetsLong (91::rest)
  | dict {rest : Str} : (skipSpace rest).head? ≠ some 125 → MeetsLongMembers (skipSpace rest) →
      MeetsLong (123::rest)
inductive MeetsLongItems : Str → Prop
  | item {text : Str} : MeetsLong text → MeetsLongItems text
  | later {text rest more : Str} {item : Value} : Reads format hook text item rest →
      skipSpace rest = 44::more →
      (skipSpace more).head? ≠ some 93 → MeetsLongItems (skipSpace more) → MeetsLongItems text
inductive MeetsLongMembers : Str → Prop
  | value {text key rest more : Str} : scanString (ε := ε) text = .ok (key,rest) →
      skipSpace rest = 58::more →
      MeetsLong (skipSpace more) → MeetsLongMembers (quote::text)
  | later {text key rest more left again : Str} {value : Value} :
      scanString (ε := ε) text = .ok (key,rest) →
      skipSpace rest = 58::more → Reads format hook (skipSpace more) value left →
      skipSpace left = 44::again →
      (skipSpace again).head? ≠ some 125 → MeetsLongMembers (skipSpace again) →
      MeetsLongMembers (quote::text)
end

/-- The reader of the whole text does. -/
def Overlong (text : Str) : Prop :=
  text.head? ≠ some 0xFEFF ∧ MeetsLong format hook (skipSpace text)

private theorem read_long (fuel : Nat) :
    (∀ text, 2 * text.length + 1 ≤ fuel → readValue format hook fuel text = .error .valueError →
      MeetsLong format hook text) ∧
    (∀ text, 2 * text.length + 2 ≤ fuel → readItems format hook fuel text = .error .valueError →
      MeetsLongItems format hook text) ∧
    (∀ text, 2 * text.length + 2 ≤ fuel → readMembers format hook fuel text = .error .valueError →
      MeetsLongMembers format hook text) := by
  induction fuel with
  | zero => exact ⟨by omega,by omega,by omega⟩
  | succ fuel ih =>
    obtain ⟨onValue,onItems,onMembers⟩ := ih
    obtain ⟨valueTakes,-,-⟩ := read_takes format hook fuel
    refine ⟨?_,?_,?_⟩
    · intro text bound failed
      rw [readValue.eq_def] at failed
      dsimp only at failed
      split at failed
      · cases failed
      · rename_i code tail
        rw [List.length_cons] at bound
        have short := skipSpace_length tail
        split_ifs at failed with string list empty object bare
        · split at failed
          · cases failed
          · rename_i error scanned
            obtain ⟨message,rfl⟩ := scanString_error scanned
            cases failed
        · split at failed
          · cases failed
          · rename_i error read
            cases failed
            rw [list]
            exact MeetsLong.list empty (onItems _ (by omega) read)
        · split at failed <;> cases failed
        · split at failed
          · split at failed <;> cases failed
          · rename_i error read
            cases failed
            rw [object]
            exact MeetsLong.dict bare (onMembers _ (by omega) read)
        · rcases readScalar_error format failed with ⟨message,other⟩ | ⟨-,numeral,rest,
            scanned,whole,long⟩
          · cases other
          · exact MeetsLong.integer scanned whole long
    · intro text bound failed
      rw [readItems] at failed
      split at failed
      · rename_i error read
        cases failed
        exact MeetsLongItems.item (onValue _ (by omega) read)
      · rename_i item left read
        have taken := (valueTakes _ _ _ read).shorter
        have trimmed := skipSpace_length left
        split at failed
        · cases failed
        · rename_i code tail shape
          rw [shape,List.length_cons] at trimmed
          have short := skipSpace_length tail
          dsimp only at failed
          split_ifs at failed with close comma trailing
          · cases failed
          · split at failed
            · cases failed
            · rename_i error later
              cases failed
              rw [comma] at shape
              exact MeetsLongItems.later ((reads_iff format hook (by omega)).mpr read)
                shape trailing
                (onItems _ (by omega) later)
          · cases failed
    · intro text bound failed
      rw [readMembers.eq_def] at failed
      dsimp only at failed
      split at failed
      · cases failed
      · rename_i code tail
        rw [List.length_cons] at bound
        split_ifs at failed with quoted
        rotate_left
        · cases failed
        rw [quoted]
        split at failed
        · rename_i error scanned
          obtain ⟨message,rfl⟩ := scanString_error scanned
          cases failed
        · rename_i key left scanned
          have taken := (scanString_takes scanned).shorter
          have trimmed := skipSpace_length left
          split at failed
          · cases failed
          · rename_i colon more shape
            rw [shape,List.length_cons] at trimmed
            have trimmed' := skipSpace_length more
            split_ifs at failed with separated
            · rw [separated] at shape
              split at failed
              · rename_i error read
                cases failed
                exact MeetsLongMembers.value scanned shape (onValue _ (by omega) read)
              · rename_i value left' read
                have taken' := (valueTakes _ _ _ read).shorter
                have trimmed'' := skipSpace_length left'
                split at failed
                · cases failed
                · rename_i code' tail' shape'
                  rw [shape',List.length_cons] at trimmed''
                  have short := skipSpace_length tail'
                  split_ifs at failed with close comma trailing
                  · cases failed
                  · split at failed
                    · cases failed
                    · rename_i error later
                      cases failed
                      rw [comma] at shape'
                      exact MeetsLongMembers.later scanned shape
                        ((reads_iff format hook (by omega)).mpr read) shape' trailing
                        (onMembers _ (by omega) later)
                  · cases failed
            · cases failed

private theorem readScalar_long {text rest : Str} {numeral : Numeral}
    (scanned : scanNumber text = some (numeral,rest)) (whole : numeral.isFloat = false)
    (long : intMaxStrDigits < numeral.digits.length) (fuel : Nat) :
    readValue format hook (fuel + 1) text = .error .valueError := by
  have parts := scanNumber_text text rest numeral scanned
  rw [← parts] at scanned ⊢
  rw [readValue_numeral format hook fuel numeral.text rest numeral scanned,readNumber,scanned]
  simp [whole,long]

mutual
private theorem meetsLong_read {text : Str} :
    MeetsLong format hook text → ∀ fuel, 2 * text.length + 1 ≤ fuel →
    readValue format hook fuel text = .error .valueError
  | .integer scanned whole long, fuel, enough => by
    obtain ⟨fuel,rfl⟩ : ∃ other, fuel = other + 1 := ⟨fuel - 1,by omega⟩
    exact readScalar_long format hook scanned whole long fuel
  | @MeetsLong.list _ _ _ rest filled long, fuel, enough => by
    obtain ⟨fuel,rfl⟩ : ∃ other, fuel = other + 1 := ⟨fuel - 1,by omega⟩
    have short := skipSpace_length rest
    rw [List.length_cons] at enough
    have failed := meetsLongItems_read long fuel (by omega)
    rw [readValue]
    simp [filled,failed]
  | @MeetsLong.dict _ _ _ rest filled long, fuel, enough => by
    obtain ⟨fuel,rfl⟩ : ∃ other, fuel = other + 1 := ⟨fuel - 1,by omega⟩
    have short := skipSpace_length rest
    rw [List.length_cons] at enough
    have failed := meetsLongMembers_read long fuel (by omega)
    rw [readValue]
    simp [filled,failed]
private theorem meetsLongItems_read {text : Str} :
    MeetsLongItems format hook text → ∀ fuel, 2 * text.length + 2 ≤ fuel →
    readItems format hook fuel text = .error .valueError
  | .item long, fuel, enough => by
    obtain ⟨fuel,rfl⟩ : ∃ other, fuel = other + 1 := ⟨fuel - 1,by omega⟩
    rw [readItems,meetsLong_read long fuel (by omega)]
  | @MeetsLongItems.later _ _ _ _ rest more _ reads shape filled long, fuel, enough => by
    obtain ⟨fuel,rfl⟩ : ∃ other, fuel = other + 1 := ⟨fuel - 1,by omega⟩
    have read := (reads_iff format hook (show _ ≤ fuel by omega)).mp reads
    have taken := ((read_takes format hook fuel).1 _ _ _ read).shorter
    have trimmed := skipSpace_length rest
    have short := skipSpace_length more
    rw [shape,List.length_cons] at trimmed
    have failed := meetsLongItems_read long fuel (by omega)
    rw [readItems,read]
    simp [shape,filled,failed]
private theorem meetsLongMembers_read {text : Str} :
    MeetsLongMembers format hook text → ∀ fuel, 2 * text.length + 2 ≤ fuel →
    readMembers format hook fuel text = .error .valueError
  | @MeetsLongMembers.value _ _ _ _ _ rest more scanned shape long, fuel, enough => by
    obtain ⟨fuel,rfl⟩ : ∃ other, fuel = other + 1 := ⟨fuel - 1,by omega⟩
    have taken := (scanString_takes scanned).shorter
    have trimmed := skipSpace_length rest
    have short := skipSpace_length more
    rw [shape,List.length_cons] at trimmed
    rw [List.length_cons] at enough
    have failed := meetsLong_read long fuel (by omega)
    rw [readMembers]
    simp [scanned,shape,failed]
  | @MeetsLongMembers.later _ _ _ _ _ rest more left again _ scanned shape reads shape' filled long,
      fuel, enough => by
    obtain ⟨fuel,rfl⟩ : ∃ other, fuel = other + 1 := ⟨fuel - 1,by omega⟩
    have taken := (scanString_takes scanned).shorter
    have trimmed := skipSpace_length rest
    have short := skipSpace_length more
    rw [shape,List.length_cons] at trimmed
    rw [List.length_cons] at enough
    have read := (reads_iff format hook (show _ ≤ fuel by omega)).mp reads
    have taken' := ((read_takes format hook fuel).1 _ _ _ read).shorter
    have trimmed' := skipSpace_length left
    have short' := skipSpace_length again
    rw [shape',List.length_cons] at trimmed'
    have failed := meetsLongMembers_read long fuel (by omega)
    rw [readMembers]
    simp [scanned,shape,read,shape',filled,failed]
end

/-- The fuel of the reader is always enough. -/
theorem loads_fueled (text : Str) : loads format hook text ≠ .error .outOfFuel := by
  intro ended
  have short := skipSpace_length text
  have fueled :=
    ((read_fueled format hook _ _ (Nat.le_refl _)).1 (skipSpace text) (show _ ≤ 2 * text.length +
      2 by omega)).2
  simp only [loads,decode] at ended
  split at ended
  · cases ended
  · split at ended
    · rename_i error read
      cases ended
      exact fueled read
    · split at ended <;> cases ended

/-- The error of integers that are too long is that of a text whose reader comes to one. -/
theorem loads_valueError_iff (text : Str) :
    loads format hook text = .error .valueError ↔ Overlong format hook text := by
  have short := skipSpace_length text
  rw [loads,decode,Overlong]
  constructor
  · intro failed
    split at failed
    · cases failed
    · rename_i unmarked
      split at failed
      · rename_i error read
        cases failed
        exact ⟨unmarked,(read_long format hook _).1 _ (by omega) read⟩
      · split at failed <;> cases failed
  · rintro ⟨unmarked,long⟩
    rw [if_neg unmarked,meetsLong_read format hook long _ (by omega)]

end Progress

end QuilrMcp.Library.Json
