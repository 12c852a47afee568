import QuilrMcp.Library.Encoding

/-! Decoding UTF-8 with replacement, one octet at a time. What cannot be continued to a character
is one replacement character, and the octet that ended it is read anew. -/
namespace QuilrMcp.Library.Utf8
open Text
open Encoding (isContinuation utf8Units encodeUtf8)

def replacement : Nat := 0xFFFD

/-- Whether the octets held and one more still begin a character. -/
def continues (held : Bytes) (byte : Nat) : Bool :=
  match held with
  | [a] => isContinuation byte && !(a == 0xE0 && byte < 0xA0) && !(a == 0xED && 0xA0 ≤ byte) &&
      !(a == 0xF0 && byte < 0x90) && !(a == 0xF4 && 0x90 ≤ byte)
  | _::_ => isContinuation byte
  | [] => false

/-- The character that complete octets encode. -/
def character : Bytes → Option Nat
  | [a,b] => if a < 0xE0 then some ((a - 0xC0) * 0x40 + (b - 0x80)) else none
  | [a,b,c] => if a < 0xF0 then some ((a - 0xE0) * 0x1000 + (b - 0x80) * 0x40 + (c - 0x80))
      else none
  | [a,b,c,d] => some ((a - 0xF0) * 0x40000 + (b - 0x80) * 0x1000 + (c - 0x80) * 0x40 + (d - 0x80))
  | _ => none

/-- An octet between characters. -/
def start (byte : Nat) : Str × Bytes :=
  if byte < 0x80 then ([byte],[])
  else if 0xC2 ≤ byte ∧ byte < 0xF5 then ([],[byte])
  else ([replacement],[])

/-- What one more octet gives, and the octets then held. -/
def step (held : Bytes) (byte : Nat) : Str × Bytes :=
  if continues held byte then
    match character (held ++ [byte]) with
    | some code => ([code],[])
    | none => ([],held ++ [byte])
  else (if held.isEmpty then (start byte).1 else replacement::(start byte).1,(start byte).2)

/-- The text of the octets, and those still held at their end. -/
def run : Bytes → Bytes → Str × Bytes
  | held, [] => ([],held)
  | held, byte::rest =>
    ((step held byte).1 ++ (run (step held byte).2 rest).1,(run (step held byte).2 rest).2)

def finish (held : Bytes) : Str := if held.isEmpty then [] else [replacement]

def replaceFrom (held bytes : Bytes) : Str := (run held bytes).1 ++ finish (run held bytes).2

/-- `bytes.decode("utf-8", errors="replace")` -/
def decodeReplace (bytes : Bytes) : Str := replaceFrom [] bytes

example : decodeReplace [0x61,0xE2,0x82,0xAC] = [0x61,0x20AC] := by decide
example : decodeReplace [0xE2,0x82] ++ decodeReplace [0xAC] = [replacement,replacement] := by decide

theorem run_append (held first second : Bytes) : run held (first ++ second) =
      ((run held first).1 ++ (run (run held first).2 second).1,
        (run (run held first).2 second).2) := by
  induction first generalizing held with
  | nil => simp [run]
  | cons byte rest ih => simp only [List.cons_append,run,ih,List.append_assoc]

theorem replaceFrom_append (held first second : Bytes) :
    replaceFrom held (first ++ second) = (run held first).1 ++
      replaceFrom (run held first).2 second := by
  simp only [replaceFrom,run_append,List.append_assoc]

@[simp] theorem replaceFrom_nil (held : Bytes) : replaceFrom held [] = finish held := rfl

theorem replaceFrom_cons (held : Bytes) (byte : Nat) (rest : Bytes) :
    replaceFrom held (byte::rest) = (step held byte).1 ++ replaceFrom (step held byte).2 rest := by
  simp only [replaceFrom,run,List.append_assoc]

private theorem start_one {byte : Nat} (small : byte < 0x80) : step [] byte = ([byte],[]) := by
  rw [step,show continues [] byte = false from rfl]
  simp [start,small]

private theorem start_more {byte : Nat} (first : 0xC2 ≤ byte) (last : byte < 0xF5) :
    step [] byte = ([],[byte]) := by
  rw [step,show continues [] byte = false from rfl]
  simp [start,show ¬ byte < 0x80 by omega,first,last]

private theorem continuation {bits : Nat} (small : bits < 0x40) :
    isContinuation (0x80 + bits) = true := by
  simp only [isContinuation,Bool.and_eq_true,decide_eq_true_eq]
  omega

private theorem step_second {first bits : Nat} (small : bits < 0x40)
    (overlong : first = 0xE0 → 0x20 ≤ bits) (surrogate : first = 0xED → bits < 0x20)
    (overlong' : first = 0xF0 → 0x10 ≤ bits) (last : first = 0xF4 → bits < 0x10) :
    continues [first] (0x80 + bits) = true := by
  simp only [continues,continuation small,Bool.true_and,Bool.and_eq_true,Bool.not_eq_true',
    Bool.and_eq_false_iff,beq_eq_false_iff_ne,decide_eq_false_iff_not]
  omega

private theorem step_on {held : Bytes} {byte : Nat} (continued : continues held byte = true)
    (incomplete : character (held ++ [byte]) = none) : step held byte = ([],held ++ [byte]) := by
  rw [step,continued,incomplete,if_pos rfl]

private theorem step_last {held : Bytes} {byte code : Nat} (continued : continues held byte = true)
    (complete : character (held ++ [byte]) = some code) : step held byte = ([code],[]) := by
  rw [step,continued,complete,if_pos rfl]

theorem run_character (code : Nat) (small : code < 0x110000) (scalar : isSurrogate code = false) :
    run [] (utf8Units code) = ([code],[]) := by
  simp only [isSurrogate,Bool.and_eq_false_iff,decide_eq_false_iff_not] at scalar
  have bits (part : Nat) : isContinuation (0x80 + part % 0x40) = true :=
    continuation (Nat.mod_lt _ (by decide))
  rw [utf8Units]
  split_ifs with one two three
  · simp only [run,start_one one,List.append_nil]
  · have second : continues [0xC0 + code / 0x40] (0x80 + code % 0x40) = true := by
      apply step_second <;> omega
    have complete : character [0xC0 + code / 0x40,0x80 + code % 0x40] = some code := by
      rw [character,if_pos (by omega),Option.some_inj]
      omega
    simp only [run,start_more (show 0xC2 ≤ 0xC0 + code / 0x40 by omega) (by omega),
      step_last second complete]
    rfl
  · have second : continues [0xE0 + code / 0x1000] (0x80 + code / 0x40 % 0x40) = true := by
      apply step_second <;> omega
    have incomplete : character [0xE0 + code / 0x1000,0x80 + code / 0x40 % 0x40] = none := by
      rw [character,if_neg (by omega)]
    have complete : character [0xE0 + code / 0x1000,0x80 + code / 0x40 % 0x40,0x80 + code % 0x40] =
      some code := by
      rw [character,if_pos (by omega),Option.some_inj]
      omega
    have last : step [0xE0 + code / 0x1000,0x80 + code / 0x40 % 0x40] (0x80 + code % 0x40) =
      ([code],[]) :=
      step_last (bits code) complete
    simp only [run,start_more (show 0xC2 ≤ 0xE0 + code / 0x1000 by omega) (by omega),
      step_on second incomplete,List.cons_append,List.nil_append,last]
  · have second : continues [0xF0 + code / 0x40000] (0x80 + code / 0x1000 % 0x40) = true := by
      apply step_second <;> omega
    have incomplete : character [0xF0 + code / 0x40000,0x80 + code / 0x1000 % 0x40] = none := by
      rw [character,if_neg (by omega)]
    have incomplete' : character [0xF0 + code / 0x40000,0x80 + code / 0x1000 % 0x40,0x80 +
      code / 0x40 % 0x40] = none := by
      rw [character,if_neg (by omega)]
    have complete : character [0xF0 + code / 0x40000,0x80 + code / 0x1000 % 0x40,0x80 +
      code / 0x40 % 0x40,
        0x80 + code % 0x40] = some code := by
      rw [character,Option.some_inj]
      omega
    have third : step [0xF0 + code / 0x40000,0x80 + code / 0x1000 % 0x40] (0x80 +
      code / 0x40 % 0x40) =
        ([],[0xF0 + code / 0x40000,0x80 + code / 0x1000 % 0x40,0x80 + code / 0x40 % 0x40]) :=
      step_on (bits (code / 0x40)) incomplete'
    have last : step [0xF0 + code / 0x40000,0x80 + code / 0x1000 % 0x40,0x80 + code / 0x40 % 0x40]
      (0x80 + code % 0x40) =
        ([code],[]) := step_last (bits code) complete
    simp only [run,start_more (show 0xC2 ≤ 0xF0 + code / 0x40000 by omega) (by omega),
      step_on second incomplete,List.cons_append,List.nil_append,third,last]

/-- What is encoded is decoded as it was. -/
theorem decode_encode {text : Str} {bytes : Bytes} (characters : ∀ code ∈ text, code < 0x110000)
    (encoded : encodeUtf8 text = some bytes) : decodeReplace bytes = text := by
  have scalars := (Encoding.encodeUtf8_isSome text).mp (Option.isSome_of_eq_some encoded)
  have plain : text.any isSurrogate = false := by simpa using scalars
  rw [encodeUtf8,plain] at encoded
  cases encoded
  clear plain
  induction text with
  | nil => rfl
  | cons code text ih =>
    obtain ⟨small,characters⟩ := List.forall_mem_cons.mp characters
    obtain ⟨scalar,scalars⟩ := List.forall_mem_cons.mp scalars
    rw [List.flatMap_cons,decodeReplace,replaceFrom_append,run_character code small scalar]
    exact congrArg (List.cons code) (ih characters scalars)

/-- The octets that may be held: they begin a character and do not complete it. -/
def Begun : Bytes → Prop
  | [] => True
  | [a] => 0xC2 ≤ a ∧ a < 0xF5
  | [a,b] => 0xE0 ≤ a ∧ a < 0xF5 ∧ continues [a] b = true
  | [a,b,c] => 0xF0 ≤ a ∧ a < 0xF5 ∧ continues [a] b = true ∧ isContinuation c = true
  | _ => False

/-- A code point that is no surrogate. -/
def Scalar (code : Nat) : Prop := code < 0x110000 ∧ isSurrogate code = false

theorem scalar_of {code : Nat} (small : code < 0x110000) (outside : code < 0xD800 ∨ 0xE000 ≤ code) :
    Scalar code := by
  refine ⟨small,?_⟩
  simp only [isSurrogate,Bool.and_eq_false_iff,decide_eq_false_iff_not]
  omega

theorem continuation_iff (byte : Nat) : isContinuation byte = true ↔ 0x80 ≤ byte ∧ byte < 0xC0 := by
  simp [isContinuation]

theorem continues_second (a b : Nat) :
    continues [a] b = true ↔ (0x80 ≤ b ∧ b < 0xC0) ∧ ¬ (a = 0xE0 ∧ b < 0xA0) ∧
    ¬ (a = 0xED ∧ 0xA0 ≤ b) ∧ ¬ (a = 0xF0 ∧ b < 0x90) ∧ ¬ (a = 0xF4 ∧ 0x90 ≤ b) := by
  simp only [continues,isContinuation,Bool.and_eq_true,Bool.not_eq_true',Bool.and_eq_false_iff,
    beq_eq_false_iff_ne,decide_eq_true_eq,decide_eq_false_iff_not]
  omega

theorem replacement_scalar : Scalar replacement := by
  unfold Scalar
  decide

theorem start_scalar (byte : Nat) :
    Begun (start byte).2 ∧ ∀ code ∈ (start byte).1, Scalar code := by
  rw [start]
  split_ifs with small first
  · exact ⟨trivial,List.forall_mem_singleton.mpr (scalar_of (by omega) (by omega))⟩
  · exact ⟨first,List.forall_mem_nil _⟩
  · exact ⟨trivial,List.forall_mem_singleton.mpr replacement_scalar⟩

theorem step_scalar {held : Bytes} (begun : Begun held) (byte : Nat) :
    Begun (step held byte).2 ∧ ∀ code ∈ (step held byte).1, Scalar code := by
  obtain ⟨next,fresh⟩ := start_scalar byte
  rw [step]
  cases continued : continues held byte with
  | false =>
    rw [if_neg Bool.false_ne_true]
    refine ⟨next,?_⟩
    split_ifs
    · exact fresh
    · exact List.forall_mem_cons.mpr ⟨replacement_scalar,fresh⟩
  | true =>
    rw [if_pos rfl]
    rcases held with _ | ⟨a,_ | ⟨b,_ | ⟨c,_ | ⟨d,held⟩⟩⟩⟩
    · cases continued
    · have bounds := (continues_second a byte).mp continued
      simp only [List.singleton_append,character]
      by_cases short : a < 0xE0
      · rw [if_pos short]
        obtain ⟨low,-⟩ := begun
        exact ⟨trivial,List.forall_mem_singleton.mpr (scalar_of (by omega) (by omega))⟩
      · rw [if_neg short]
        exact ⟨⟨Nat.le_of_not_lt short,begun.2,continued⟩,List.forall_mem_nil _⟩
    · obtain ⟨low,high,second⟩ := begun
      have bounds := (continues_second a b).mp second
      have last := (continuation_iff byte).mp continued
      simp only [List.cons_append,List.nil_append,character]
      by_cases short : a < 0xF0
      · rw [if_pos short]
        exact ⟨trivial,List.forall_mem_singleton.mpr (scalar_of (by omega) (by omega))⟩
      · rw [if_neg short]
        exact ⟨⟨Nat.le_of_not_lt short,high,second,continued⟩,List.forall_mem_nil _⟩
    · obtain ⟨low,high,second,third⟩ := begun
      have bounds := (continues_second a b).mp second
      have middle := (continuation_iff c).mp third
      have last := (continuation_iff byte).mp continued
      exact ⟨trivial,List.forall_mem_singleton.mpr (scalar_of (by omega) (by omega))⟩
    · cases begun

theorem run_scalar {held : Bytes} (begun : Begun held) (bytes : Bytes) :
    ∀ code ∈ (run held bytes).1, Scalar code := by
  induction bytes generalizing held with
  | nil => exact List.forall_mem_nil _
  | cons byte rest ih =>
    obtain ⟨next,first⟩ := step_scalar begun byte
    exact List.forall_mem_append.mpr ⟨first,ih next⟩

theorem decodeReplace_scalar (bytes : Bytes) : ∀ code ∈ decodeReplace bytes, Scalar code := by
  refine List.forall_mem_append.mpr ⟨run_scalar (show Begun [] from trivial) bytes,?_⟩
  rw [finish]
  split_ifs
  · exact List.forall_mem_nil _
  · exact List.forall_mem_singleton.mpr replacement_scalar

theorem replaceFrom_apart (held : Bytes) (byte : Nat) (rest : Bytes)
    (apart : continues held byte = false) :
    replaceFrom held (byte::rest) = finish held ++ replaceFrom [] (byte::rest) := by
  have fresh : continues [] byte = false := rfl
  rw [replaceFrom_cons,replaceFrom_cons,step,step,apart,fresh]
  cases held <;> simp [finish]

/-- No chunk ends inside a character that the octets behind it continue. -/
def Undivided : List Bytes → Prop
  | [] => True
  | chunk::chunks => (∀ byte ∈ chunks.flatten.head?, continues (run [] chunk).2 byte = false) ∧
      Undivided chunks

/-- The chunks decode one by one as their whole where no cut divides a character. -/
theorem decode_undivided (chunks : List Bytes) (undivided : Undivided chunks) :
    chunks.flatMap decodeReplace = decodeReplace chunks.flatten := by
  induction chunks with
  | nil => rfl
  | cons chunk chunks ih =>
    have whole : decodeReplace (chunk ++ chunks.flatten) = (run [] chunk).1 ++
      replaceFrom (run [] chunk).2 chunks.flatten :=
      replaceFrom_append [] chunk chunks.flatten
    have alone : decodeReplace chunk = (run [] chunk).1 ++ finish (run [] chunk).2 := rfl
    rw [List.flatMap_cons,List.flatten_cons,ih undivided.2,whole,alone,List.append_assoc]
    congr 1
    cases shape : chunks.flatten with
    | nil => simp [decodeReplace,finish]
    | cons byte rest =>
      exact (replaceFrom_apart _ byte rest (undivided.1 byte (by simp [shape]))).symm

theorem continues_held {held : Bytes} {byte : Nat} (continued : continues held byte = true) :
    held ≠ [] ∧ isContinuation byte = true := by
  match held with
  | [] => contradiction
  | [a] =>
    simp only [continues,Bool.and_eq_true] at continued
    exact ⟨List.cons_ne_nil _ _,continued.1.1.1.1⟩
  | _::_::_ => exact ⟨List.cons_ne_nil _ _,continued⟩

theorem start_continuation {byte : Nat} (continued : isContinuation byte = true) :
    start byte = ([replacement],[]) := by
  simp only [isContinuation,Bool.and_eq_true,decide_eq_true_eq] at continued
  rw [start,if_neg (by omega),if_neg (by omega)]

variable {keep : Nat → Bool} (kept : keep replacement = true)
include kept

private theorem finish_count {held : Bytes} (more : held ≠ []) : (finish held).countP keep = 1 := by
  simp [finish,more,kept]

private theorem divided_fewer {held : Bytes} {byte : Nat} {rest : Bytes}
    (continued : continues held byte = true)
    (later : (replaceFrom (held ++ [byte]) rest).countP keep ≤
      (finish (held ++ [byte])).countP keep + (replaceFrom [] rest).countP keep) :
    (replaceFrom held (byte::rest)).countP keep <
      (finish held).countP keep + (replaceFrom [] (byte::rest)).countP keep := by
  obtain ⟨more,continuation⟩ := continues_held continued
  have fresh : continues [] byte = false := rfl
  have alone : replaceFrom [] (byte::rest) = replacement::replaceFrom [] rest := by
    rw [replaceFrom_cons,step,fresh]
    simp [start_continuation continuation]
  rw [finish_count kept (by simp)] at later
  rw [replaceFrom_cons,step,continued,alone,finish_count kept more,List.countP_cons_of_pos kept]
  cases complete : character (held ++ [byte]) with
  | some code =>
    have one : [code].countP keep ≤ 1 := List.countP_le_length
    simp only [if_true,List.countP_append]
    omega
  | none =>
    simp only [if_true,List.nil_append]
    omega

/-- Held octets save at most the one replacement character that they would be. -/
theorem replaceFrom_count (held bytes : Bytes) :
    (replaceFrom held bytes).countP keep ≤ (finish held).countP keep +
    (replaceFrom [] bytes).countP keep := by
  induction bytes generalizing held with
  | nil => simp [finish]
  | cons byte rest ih =>
    cases continued : continues held byte with
    | false =>
      apply Nat.le_of_eq
      rw [replaceFrom_apart held byte rest continued,List.countP_append]
    | true => exact Nat.le_of_lt (divided_fewer kept continued (ih (held ++ [byte])))

/-- A divided character is fewer characters than its two parts. -/
theorem replaceFrom_divided (held : Bytes) (byte : Nat) (rest : Bytes)
    (continued : continues held byte = true) :
    (replaceFrom held (byte::rest)).countP keep <
      (finish held).countP keep + (replaceFrom [] (byte::rest)).countP keep :=
  divided_fewer kept continued (replaceFrom_count kept (held ++ [byte]) rest)

private theorem cut_count (chunk more : Bytes) :
    (decodeReplace (chunk ++ more)).countP keep ≤ (decodeReplace chunk).countP keep +
    (decodeReplace more).countP keep := by
  have bound := replaceFrom_count kept (run [] chunk).2 more
  have alone : decodeReplace chunk = (run [] chunk).1 ++ finish (run [] chunk).2 := rfl
  rw [decodeReplace,replaceFrom_append,alone,decodeReplace]
  simp only [List.countP_append]
  omega

theorem decode_count (chunks : List Bytes) :
    (decodeReplace chunks.flatten).countP keep ≤ (chunks.flatMap decodeReplace).countP keep := by
  induction chunks with
  | nil => exact Nat.le_refl _
  | cons chunk chunks ih =>
    have cut := cut_count kept chunk chunks.flatten
    rw [List.flatten_cons,List.flatMap_cons,List.countP_append]
    omega

/-- A cut inside a character shows in every count of characters that counts the replacement. -/
theorem decode_divided (chunks : List Bytes) (divided : ¬ Undivided chunks) :
    (decodeReplace chunks.flatten).countP keep < (chunks.flatMap decodeReplace).countP keep := by
  induction chunks with
  | nil => exact absurd trivial divided
  | cons chunk chunks ih =>
    have fewer := decode_count kept chunks
    have cut := cut_count kept chunk chunks.flatten
    rw [List.flatten_cons,List.flatMap_cons,List.countP_append]
    by_cases later : Undivided chunks
    · have first : ∃ byte ∈ chunks.flatten.head?, continues (run [] chunk).2 byte = true := by
        by_contra none
        simp only [not_exists,not_and,Bool.not_eq_true] at none
        exact divided ⟨none,later⟩
      obtain ⟨byte,first,continued⟩ := first
      obtain ⟨rest,shape⟩ := List.head?_eq_some_iff.mp first
      have less := replaceFrom_divided kept (run [] chunk).2 byte rest continued
      have alone : decodeReplace chunk = (run [] chunk).1 ++ finish (run [] chunk).2 := rfl
      rw [shape] at fewer ⊢
      rw [decodeReplace] at fewer
      rw [decodeReplace,replaceFrom_append,alone]
      simp only [List.countP_append]
      omega
    · have less := ih later
      omega

end QuilrMcp.Library.Utf8
