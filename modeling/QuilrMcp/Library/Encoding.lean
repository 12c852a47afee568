import QuilrMcp.Library.Text

/-! UTF-8, and the encodings that a JSON reader detects in bytes. The strict encoder refuses
surrogates; the decoders let them pass. -/
namespace QuilrMcp.Library.Encoding
open Text

def utf8Units (code : Nat) : Bytes :=
  if code < 0x80 then [code]
  else if code < 0x800 then [0xC0 + code / 0x40,0x80 + code % 0x40]
  else if code < 0x10000 then [0xE0 + code / 0x1000,0x80 + code / 0x40 % 0x40,0x80 + code % 0x40]
  else [0xF0 + code / 0x40000,0x80 + code / 0x1000 % 0x40,0x80 + code / 0x40 % 0x40,
    0x80 + code % 0x40]

/-- `none` where a surrogate cannot be encoded. -/
def encodeUtf8 (text : Str) : Option Bytes :=
  if text.any isSurrogate then none else some (text.flatMap utf8Units)

theorem encodeUtf8_isSome (text : Str) :
    (encodeUtf8 text).isSome ↔ ∀ code ∈ text, isSurrogate code = false := by
  simp [encodeUtf8]

private theorem utf8Units_append {code code' : Nat} {rest rest' : Bytes}
    (same : utf8Units code ++ rest = utf8Units code' ++ rest') : code = code' ∧ rest = rest' := by
  unfold utf8Units at same
  split_ifs at same
  all_goals simp only [List.cons_append,List.nil_append,List.cons.injEq] at same
  all_goals first
    | exact ⟨by omega,same.2⟩
    | exact ⟨by omega,same.2.2⟩
    | exact ⟨by omega,same.2.2.2⟩
    | exact ⟨by omega,same.2.2.2.2⟩
    | omega

theorem encodeUtf8_inj {text text' : Str} {bytes : Bytes} (encoded : encodeUtf8 text = some bytes)
    (encoded' : encodeUtf8 text' = some bytes) : text = text' := by
  have units {text : Str} (encoded : encodeUtf8 text = some bytes) : text.flatMap utf8Units =
    bytes := by
    rw [encodeUtf8] at encoded
    split_ifs at encoded
    exact Option.some.inj encoded
  have empty {code : Nat} {rest : Bytes} : utf8Units code ++ rest ≠ [] := by
    unfold utf8Units
    split_ifs <;> exact List.cons_ne_nil _ _
  have same := (units encoded).trans (units encoded').symm
  clear encoded encoded'
  induction text generalizing text' with
  | nil =>
    cases text' with
    | nil => rfl
    | cons code text' => exact absurd same.symm empty
  | cons code text ih =>
    cases text' with
    | nil => exact absurd same empty
    | cons code' text' =>
      rw [List.flatMap_cons,List.flatMap_cons] at same
      obtain ⟨rfl,later⟩ := utf8Units_append same
      rw [ih later]

def isContinuation (byte : Nat) : Bool := 0x80 ≤ byte && byte < 0xC0

/-- Surrogates pass; overlong forms and code points above the last one do not. -/
def decodeUtf8 : Bytes → Option Str
  | [] => some []
  | a::rest =>
    if a < 0x80 then (decodeUtf8 rest).map (List.cons a)
    else if a < 0xC2 then none
    else if a < 0xE0 then
      match rest with
      | b::rest =>
        if isContinuation b then (decodeUtf8 rest).map (List.cons ((a - 0xC0) * 0x40 + (b - 0x80)))
        else none
      | _ => none
    else if a < 0xF0 then
      match rest with
      | b::c::rest =>
        if isContinuation b ∧ isContinuation c ∧ ¬ (a = 0xE0 ∧ b < 0xA0) then
          (decodeUtf8 rest).map (List.cons ((a - 0xE0) * 0x1000 + (b - 0x80) * 0x40 + (c - 0x80)))
        else none
      | _ => none
    else if a < 0xF5 then
      match rest with
      | b::c::d::rest =>
        if isContinuation b ∧ isContinuation c ∧ isContinuation d ∧ ¬ (a = 0xF0 ∧ b < 0x90) ∧
            ¬ (a = 0xF4 ∧ 0x90 ≤ b) then
          (decodeUtf8 rest).map
            (List.cons ((a - 0xF0) * 0x40000 + (b - 0x80) * 0x1000 +
              (c - 0x80) * 0x40 + (d - 0x80)))
        else none
      | _ => none
    else none

def units16 (bigEndian : Bool) : Bytes → Option (List Nat)
  | [] => some []
  | [_] => none
  | a::b::rest =>
    (units16 bigEndian rest).map (List.cons (if bigEndian then a * 0x100 + b else b * 0x100 + a))

/-- A high and a low surrogate are one code point; any other surrogate passes. -/
def decodeUtf16 (bigEndian : Bool) (bytes : Bytes) : Option Str :=
  (units16 bigEndian bytes).map joinSurrogates

def decodeUtf32 (bigEndian : Bool) : Bytes → Option Str
  | [] => some []
  | a::b::c::d::rest =>
    let code := if bigEndian then ((a * 0x100 + b) * 0x100 + c) * 0x100 + d
      else ((d * 0x100 + c) * 0x100 + b) * 0x100 + a
    if code < 0x110000 then (decodeUtf32 bigEndian rest).map (List.cons code) else none
  | _ => none

/-- A mark at the start of the bytes gives the encoding and is no part of the text. -/
inductive Codec
  | utf8
  | utf8Sig
  | utf16Mark (bigEndian : Bool)
  | utf32Mark (bigEndian : Bool)
  | utf16 (bigEndian : Bool)
  | utf32 (bigEndian : Bool)
  deriving DecidableEq

/-- `json.detect_encoding` -/
def detectEncoding (bytes : Bytes) : Codec :=
  if [0x00,0x00,0xFE,0xFF].isPrefixOf bytes then .utf32Mark true
  else if [0xFF,0xFE,0x00,0x00].isPrefixOf bytes then .utf32Mark false
  else if [0xFE,0xFF].isPrefixOf bytes then .utf16Mark true
  else if [0xFF,0xFE].isPrefixOf bytes then .utf16Mark false
  else if [0xEF,0xBB,0xBF].isPrefixOf bytes then .utf8Sig
  else match bytes with
    | a::b::c::d::_ =>
      if a = 0 then if b ≠ 0 then .utf16 true else .utf32 true
      else if b = 0 then if c ≠ 0 ∨ d ≠ 0 then .utf16 false else .utf32 false
      else .utf8
    | [a,b] => if a = 0 then .utf16 true else if b = 0 then .utf16 false else .utf8
    | _ => .utf8

def Codec.decode (codec : Codec) (bytes : Bytes) : Option Str :=
  match codec with
  | .utf8 => decodeUtf8 bytes
  | .utf8Sig => decodeUtf8 (bytes.drop 3)
  | .utf16Mark bigEndian => decodeUtf16 bigEndian (bytes.drop 2)
  | .utf32Mark bigEndian => decodeUtf32 bigEndian (bytes.drop 4)
  | .utf16 bigEndian => decodeUtf16 bigEndian bytes
  | .utf32 bigEndian => decodeUtf32 bigEndian bytes

def decodeDetected (bytes : Bytes) : Option Str := (detectEncoding bytes).decode bytes

private theorem decodeUtf8_range (bytes : Bytes) (text : Str)
    (decoded : decodeUtf8 bytes = some text) :
    ∀ code ∈ text, code < 0x110000 := by
  have step (rest : Bytes) (code : Nat) (shorter : rest.length < bytes.length)
    (small : code < 0x110000)
      (decoded : (decodeUtf8 rest).map (List.cons code) = some text) :
      ∀ code ∈ text, code < 0x110000 := by
    obtain ⟨tail,later,rfl⟩ := Option.map_eq_some_iff.mp decoded
    exact List.forall_mem_cons.mpr ⟨small,decodeUtf8_range rest tail later⟩
  rw [decodeUtf8.eq_def] at decoded
  split at decoded
  · cases decoded
    simp
  · rename_i a rest
    split_ifs at decoded with one low two three four
    · exact step rest a (by simp) (by omega) decoded
    · split at decoded
      · rename_i b rest
        split_ifs at decoded with valid
        simp only [isContinuation,Bool.and_eq_true,decide_eq_true_eq] at valid
        exact step rest _ (by simp only [List.length_cons]; omega) (by omega) decoded
      · contradiction
    · split at decoded
      · rename_i b c rest
        split_ifs at decoded with valid
        simp only [isContinuation,Bool.and_eq_true,decide_eq_true_eq] at valid
        exact step rest _ (by simp only [List.length_cons]; omega) (by omega) decoded
      · contradiction
    · split at decoded
      · rename_i b c d rest
        split_ifs at decoded with valid
        simp only [isContinuation,Bool.and_eq_true,decide_eq_true_eq] at valid
        exact step rest _ (by simp only [List.length_cons]; omega) (by omega) decoded
      · contradiction
termination_by bytes.length

private theorem units16_range (bigEndian : Bool) (bytes : Bytes)
    (octets : ∀ byte ∈ bytes, byte < 0x100) (units : List Nat)
    (decoded : units16 bigEndian bytes = some units) : ∀ unit ∈ units, unit < 0x10000 := by
  induction bytes using units16.induct generalizing units with
  | case1 =>
    cases decoded
    simp
  | case2 => simp [units16] at decoded
  | case3 a b rest ih =>
    obtain ⟨tail,later,rfl⟩ := Option.map_eq_some_iff.mp decoded
    have first := octets a (by simp)
    have second := octets b (by simp)
    refine List.forall_mem_cons.mpr ⟨?_,
      ih (fun byte member => octets byte (by simp [member])) tail later⟩
    split_ifs <;> omega

private theorem joinSurrogates_range (text : Str) (range : ∀ code ∈ text, code < 0x10000) :
    ∀ code ∈ joinSurrogates text, code < 0x110000 := by
  induction text using joinSurrogates.induct with
  | case1 => simp [joinSurrogates]
  | case2 code =>
    intro other member
    have := range other member
    omega
  | case3 first second rest paired ih =>
    rw [joinSurrogates,if_pos paired]
    refine List.forall_mem_cons.mpr ⟨?_,ih (fun code member => range code (by simp [member]))⟩
    simp only [isHigh,isLow,Bool.and_eq_true,decide_eq_true_eq] at paired
    unfold joinPair
    omega
  | case4 first second rest unpaired ih =>
    rw [joinSurrogates,if_neg unpaired]
    have := range first List.mem_cons_self
    exact List.forall_mem_cons.mpr
      ⟨by omega,ih (fun code member => range code (List.mem_cons_of_mem _ member))⟩

private theorem decodeUtf16_range (bigEndian : Bool) (bytes : Bytes)
    (octets : ∀ byte ∈ bytes, byte < 0x100) (text : Str)
    (decoded : decodeUtf16 bigEndian bytes = some text) : ∀ code ∈ text, code < 0x110000 := by
  obtain ⟨units,found,rfl⟩ := Option.map_eq_some_iff.mp decoded
  exact joinSurrogates_range units (units16_range bigEndian bytes octets units found)

private theorem decodeUtf32_range (bigEndian : Bool) (bytes : Bytes) (text : Str)
    (decoded : decodeUtf32 bigEndian bytes = some text) : ∀ code ∈ text, code < 0x110000 := by
  induction bytes using decodeUtf32.induct bigEndian generalizing text with
  | case1 =>
    cases decoded
    simp
  | case2 a b c d rest code small ih =>
    rw [decodeUtf32] at decoded
    simp only [code] at small
    rw [if_pos small] at decoded
    obtain ⟨tail,later,rfl⟩ := Option.map_eq_some_iff.mp decoded
    exact List.forall_mem_cons.mpr ⟨small,ih tail later⟩
  | case3 a b c d rest code large =>
    rw [decodeUtf32] at decoded
    simp only [code] at large
    rw [if_neg large] at decoded
    contradiction
  | case4 bytes some_ other => simp_all [decodeUtf32]

theorem decodeDetected_range (bytes : Bytes) (octets : ∀ byte ∈ bytes, byte < 0x100) (text : Str)
    (decoded : decodeDetected bytes = some text) : ∀ code ∈ text, code < 0x110000 := by
  have dropped (count : Nat) : ∀ byte ∈ bytes.drop count, byte < 0x100 :=
    fun byte member => octets byte (List.mem_of_mem_drop member)
  unfold decodeDetected Codec.decode at decoded
  split at decoded
  · exact decodeUtf8_range _ _ decoded
  · exact decodeUtf8_range _ _ decoded
  · exact decodeUtf16_range _ _ (dropped 2) _ decoded
  · exact decodeUtf32_range _ _ _ decoded
  · exact decodeUtf16_range _ _ octets _ decoded
  · exact decodeUtf32_range _ _ _ decoded

theorem decodeUtf8_ascii (text : Str) (ascii : ∀ code ∈ text, code < 0x80) :
    decodeUtf8 text = some text := by
  induction text with
  | nil => rw [decodeUtf8]
  | cons code text ih =>
    rw [decodeUtf8.eq_def]
    simp [ascii code List.mem_cons_self,
      ih (fun other member => ascii other (List.mem_cons_of_mem _ member))]

/-- Encoded text without a zero that begins with ASCII is read back as what it encodes. -/
theorem decodeDetected_ascii (text : Str) (ascii : ∀ code ∈ text, 0 < code ∧ code < 0x80) :
    decodeDetected text = some text := by
  have plain := decodeUtf8_ascii text (fun code member => (ascii code member).2)
  have detected : detectEncoding text = .utf8 := by
    match text, ascii with
    | [], _ => rfl
    | [a], ascii =>
      have first := ascii a (by simp)
      simp only [detectEncoding,List.isPrefixOf,Bool.and_eq_true,beq_iff_eq]
      split_ifs <;> first | omega | simp_all
    | [a,b], ascii =>
      have first := ascii a (by simp)
      have second := ascii b (by simp)
      simp only [detectEncoding,List.isPrefixOf,Bool.and_eq_true,beq_iff_eq]
      split_ifs <;> first | omega | simp_all
    | [a,b,c], ascii =>
      have first := ascii a (by simp)
      simp only [detectEncoding,List.isPrefixOf,Bool.and_eq_true,beq_iff_eq]
      split_ifs <;> first | omega | simp_all
    | a::b::c::d::rest, ascii =>
      have first := ascii a (by simp)
      have second := ascii b (by simp)
      simp only [detectEncoding,List.isPrefixOf,Bool.and_eq_true,beq_iff_eq]
      split_ifs <;> first | omega | simp_all
  rw [decodeDetected,detected,Codec.decode,plain]

theorem encodeUtf8_ascii (text : Str) (ascii : ∀ code ∈ text, code < 0x80) :
    encodeUtf8 text = some text := by
  have clean : text.any isSurrogate = false := by
    simp only [List.any_eq_false,isSurrogate,Bool.and_eq_true,decide_eq_true_eq]
    intro code member
    have := ascii code member
    omega
  have same : text.flatMap utf8Units = text := by
    induction text with
    | nil => rfl
    | cons code text ih =>
      have small := ascii code List.mem_cons_self
      rw [List.flatMap_cons,utf8Units,if_pos small,
        ih (fun other member => ascii other (List.mem_cons_of_mem _ member))
        (by simp only [List.any_cons,Bool.or_eq_false_iff] at clean; exact clean.2)]
      rfl
  rw [encodeUtf8,clean,same]
  rfl

end QuilrMcp.Library.Encoding
