import QuilrMcp.Library.Utf8
import QuilrMcp.Library.Unicode
import QuilrMcp.Library.Blurring

/-! Octets decoded in chunks. A cut may divide a character, never one of ASCII, and what is read
of it then are replacement characters; they stay where stripping would have taken it away. -/
namespace QuilrMcp.Library.Utf8
open Text
open Encoding (isContinuation)

/-- The second text is the first with some characters that are not ASCII divided. -/
inductive Divided : Str → Str → Prop
  | nil : Divided [] []
  | same (code : Nat) {text text' : Str} : Divided text text' → Divided (code::text) (code::text')
  | divided {code : Nat} {text text' : Str} (n : Nat) : 128 ≤ code → Divided text text' →
      Divided (code::text) (List.replicate (n + 1) replacement ++ text')

namespace Divided

theorem refl (text : Str) : Divided text text := by
  induction text with
  | nil => exact .nil
  | cons code text ih => exact .same code ih

theorem append {text text' more more' : Str} (first : Divided text text')
    (second : Divided more more') :
    Divided (text ++ more) (text' ++ more') := by
  induction first with
  | nil => exact second
  | same code _ ih => exact .same code ih
  | divided n large _ ih =>
    rw [List.append_assoc]
    exact .divided n large ih

theorem reverse {text text' : Str} (divided : Divided text text') :
    Divided text.reverse text'.reverse := by
  induction divided with
  | nil => exact .nil
  | same code _ ih =>
    rw [List.reverse_cons,List.reverse_cons]
    exact ih.append (refl [code])
  | divided n large _ ih =>
    have last := Divided.divided n large .nil
    rw [List.append_nil] at last
    rw [List.reverse_cons,List.reverse_append,List.reverse_replicate]
    exact ih.append last

theorem more {text text' : Str} (divided : Divided text (replacement::text')) :
    Divided text (replacement::replacement::text') := by
  generalize whole : replacement::text' = other at divided
  cases divided with
  | nil => contradiction
  | same code later =>
    cases whole
    exact .divided 1 (by decide) later
  | divided n large later =>
    cases whole
    exact .divided (n + 1) large later

private theorem replaced {n : Nat} {text text' : Str}
    (divided : Divided (List.replicate n replacement ++ text) text') :
    ∃ m rest, n ≤ m ∧ text' = List.replicate m replacement ++ rest ∧ Divided text rest := by
  induction n generalizing text' with
  | zero => exact ⟨0,text',Nat.le_refl 0,rfl,divided⟩
  | succ n ih =>
    rw [List.replicate_succ,List.cons_append] at divided
    cases divided with
    | same _ later =>
      obtain ⟨m,rest,bound,rfl,last⟩ := ih later
      exact ⟨m + 1,rest,by omega,rfl,last⟩
    | divided k _ later =>
      obtain ⟨m,rest,bound,rfl,last⟩ := ih later
      refine ⟨k + 1 + m,rest,by omega,?_,last⟩
      rw [← List.append_assoc,List.replicate_append_replicate]

theorem trans {text text' text'' : Str} (first : Divided text text')
    (second : Divided text' text'') : Divided text text'' := by
  induction first generalizing text'' with
  | nil => exact second
  | same code later ih =>
    cases second with
    | same _ rest => exact .same code (ih rest)
    | divided n large rest => exact .divided n large (ih rest)
  | divided n large later ih =>
    obtain ⟨m,rest,bound,rfl,last⟩ := replaced second
    obtain ⟨m,rfl⟩ : ∃ k, m = k + 1 := ⟨m - 1,by omega⟩
    exact .divided m large (ih last)

/-- A reader that is blind to what is not ASCII sees no difference. -/
theorem blurred {text text' : Str} (divided : Divided text text') : Json.Blurred text text' := by
  induction divided with
  | nil => exact .nil
  | @same code text text' _ ih =>
    by_cases small : code < 128
    · exact .same small ih
    · have foreign : Json.Foreign [code] :=
        ⟨List.cons_ne_nil _ _,List.forall_mem_singleton.mpr (by omega)⟩
      exact .run foreign foreign ih
  | @divided code text text' n large _ ih =>
    have foreign : Json.Foreign [code] := ⟨List.cons_ne_nil _ _,List.forall_mem_singleton.mpr large⟩
    have foreign' : Json.Foreign (List.replicate (n + 1) replacement) := by
      refine ⟨List.cons_ne_nil _ _,fun code member => ?_⟩
      rw [List.eq_of_mem_replicate member]
      decide
    exact .run foreign foreign' ih

/-- A text of ASCII at the front is not divided. -/
theorem behind {front text text' : Str} (ascii : ∀ code ∈ front, code < 128)
    (divided : Divided (front ++ text) text') :
    ∃ rest, text' = front ++ rest ∧ Divided text rest := by
  induction front generalizing text' with
  | nil => exact ⟨text',rfl,divided⟩
  | cons code front ih =>
    obtain ⟨small,ascii⟩ := List.forall_mem_cons.mp ascii
    rw [List.cons_append] at divided
    cases divided with
    | same _ later =>
      obtain ⟨rest,rfl,last⟩ := ih ascii later
      exact ⟨rest,rfl,last⟩
    | divided n large _ => omega

/-- Each part of a divided text is divided, its separator being ASCII. -/
theorem split {separator : Nat} (small : separator < 128) {text text' : Str}
    (divided : Divided text text') :
    List.Forall₂ Divided (Unicode.split separator text) (Unicode.split separator text') := by
  induction divided with
  | nil => exact .cons .nil .nil
  | @same code text text' _ ih =>
    obtain ⟨part,parts,shape⟩ := List.exists_cons_of_ne_nil (Unicode.split_ne_nil separator text)
    obtain ⟨part',parts',shape'⟩ :=
      List.exists_cons_of_ne_nil (Unicode.split_ne_nil separator text')
    rw [shape,shape'] at ih
    rw [Unicode.split,Unicode.split,shape,shape']
    split_ifs with here
    · exact .cons .nil ih
    · cases ih with
      | cons first rest => exact .cons (.same code first) rest
  | @divided code text text' n large _ ih =>
    have apart : separator ∉ List.replicate (n + 1) replacement := by
      intro member
      rw [List.eq_of_mem_replicate member] at small
      exact absurd small (by decide)
    obtain ⟨part,parts,shape⟩ := List.exists_cons_of_ne_nil (Unicode.split_ne_nil separator text)
    obtain ⟨part',parts',shape'⟩ :=
      List.exists_cons_of_ne_nil (Unicode.split_ne_nil separator text')
    rw [shape,shape'] at ih
    rw [Unicode.split_front apart,Unicode.split,if_neg (by omega),shape,shape']
    cases ih with
    | cons first rest => exact .cons (.divided n large first) rest

end Divided

/-- Octets that begin a character, and not in a form that is too long. -/
private def Begins : Bytes → Prop
  | [] => True
  | [a] => 0xC2 ≤ a
  | [a,b] => 0xE0 ≤ a ∧ 0x80 ≤ b ∧ (a = 0xE0 → 0xA0 ≤ b) ∧ (a = 0xF0 → 0x90 ≤ b)
  | [a,b,_] => 0xF0 ≤ a ∧ (a = 0xF0 → 0x90 ≤ b)
  | _ => False

/-- One octet more completes a character that is not ASCII, or still begins one. -/
private theorem begins_continued {held : Bytes} {byte : Nat} (begins : Begins held)
    (continued : continues held byte = true) :
    (∀ code, character (held ++ [byte]) = some code → 128 ≤ code) ∧
      (character (held ++ [byte]) = none → Begins (held ++ [byte])) := by
  obtain ⟨-,more⟩ := continues_held continued
  simp only [isContinuation,Bool.and_eq_true,decide_eq_true_eq] at more
  rcases held with _ | ⟨a,_ | ⟨b,_ | ⟨c,_ | ⟨d,held⟩⟩⟩⟩
  · contradiction
  · simp only [Begins] at begins
    simp only [continues,Bool.and_eq_true,Bool.not_eq_true',Bool.and_eq_false_iff,
      beq_eq_false_iff_ne,decide_eq_false_iff_not] at continued
    simp only [List.cons_append,List.nil_append,character,Begins]
    split_ifs <;> simp <;> omega
  · simp only [Begins] at begins
    simp only [List.cons_append,List.nil_append,character,Begins]
    split_ifs <;> simp <;> omega
  · simp only [Begins] at begins
    simp only [List.cons_append,List.nil_append,character]
    simp
    omega
  · contradiction

private theorem begins_step {held : Bytes} (byte : Nat) (begins : Begins held) :
    Begins (step held byte).2 := by
  rw [step]
  cases continued : continues held byte with
  | true =>
    have more := begins_continued begins continued
    cases complete : character (held ++ [byte]) with
    | some code => exact trivial
    | none => exact more.2 complete
  | false =>
    change Begins (start byte).2
    rw [start]
    split_ifs with one more
    · exact trivial
    · exact more.1
    · exact trivial

private theorem begins_run {held : Bytes} (bytes : Bytes) (begins : Begins held) :
    Begins (run held bytes).2 := by
  induction bytes generalizing held with
  | nil => exact begins
  | cons byte bytes ih => exact ih (begins_step byte begins)

/-- The octets behind a cut are decoded apart from those that are held there. -/
private theorem replaceFrom_divides {held : Bytes} (bytes : Bytes) (begins : Begins held) :
    Divided (replaceFrom held bytes) (finish held ++ replaceFrom [] bytes) := by
  induction bytes generalizing held with
  | nil =>
    rw [replaceFrom_nil,replaceFrom_nil]
    simpa [finish] using Divided.refl _
  | cons byte bytes ih =>
    cases continued : continues held byte with
    | false =>
      rw [replaceFrom_apart held byte bytes continued]
      exact Divided.refl _
    | true =>
      obtain ⟨filled,continuation⟩ := continues_held continued
      have fresh : continues [] byte = false := rfl
      have alone : finish held ++ replaceFrom [] (byte::bytes) =
        replacement::replacement::replaceFrom [] bytes := by
        rw [replaceFrom_cons,step,fresh]
        simp [start_continuation continuation,finish,filled]
      have next := begins_continued begins continued
      rw [alone,replaceFrom_cons,step,continued,if_pos rfl]
      cases complete : character (held ++ [byte]) with
      | some code => exact .divided 1 (next.1 code complete) (Divided.refl _)
      | none =>
        have later := ih (next.2 complete)
        rw [finish,List.isEmpty_eq_false_iff.mpr (by simp),if_neg Bool.false_ne_true] at later
        exact later.more

/-- What is decoded in chunks is the whole with the characters divided that a cut divides. -/
theorem decode_divides (chunks : List Bytes) :
    Divided (decodeReplace chunks.flatten) (chunks.flatMap decodeReplace) := by
  induction chunks with
  | nil => exact .nil
  | cons chunk chunks ih =>
    have whole : decodeReplace (chunk ++ chunks.flatten) = (run [] chunk).1 ++
      replaceFrom (run [] chunk).2 chunks.flatten :=
      replaceFrom_append [] chunk chunks.flatten
    have alone : decodeReplace chunk = (run [] chunk).1 ++ finish (run [] chunk).2 := rfl
    have cut := replaceFrom_divides chunks.flatten (begins_run chunk (show Begins [] from trivial))
    rw [List.flatten_cons,List.flatMap_cons,whole,alone,List.append_assoc]
    apply (Divided.refl _).append
    exact cut.trans ((Divided.refl _).append ih)

section Margins
variable (tables : Unicode.Tables)

/-- The white space that stripping takes from the front, and what it takes from the end. -/
def margins (text : Str) : Str × Str :=
  (text.takeWhile tables.isSpace,(text.dropWhile tables.isSpace).reverse.takeWhile tables.isSpace)

/-- A margin keeps its characters, or a replacement character stands where one of them was divided. -/
theorem Divided.margin {p : Nat → Bool} (plain : p replacement = false) {text text' : Str}
    (divided : Divided text text') :
    (text.takeWhile p = text'.takeWhile p ∧ Divided (text.dropWhile p) (text'.dropWhile p)) ∨
      (text.takeWhile p ≠ text'.takeWhile p ∧ (text'.dropWhile p).head? = some replacement) := by
  induction divided with
  | nil => exact Or.inl ⟨rfl,.nil⟩
  | @same code text text' later ih =>
    cases known : p code with
    | true => simpa [known] using ih
    | false => exact Or.inl ⟨by simp [known],by simpa [known] using Divided.same code later⟩
  | @divided code text text' n large later ih =>
    have stays : (List.replicate (n + 1) replacement ++ text').takeWhile p = [] ∧
        (List.replicate (n + 1) replacement ++ text').dropWhile p =
          List.replicate (n + 1) replacement ++ text' := by
      simp [List.replicate_succ,plain]
    rw [stays.1,stays.2]
    cases known : p code with
    | true =>
      rw [List.takeWhile_cons_of_pos known]
      exact Or.inr ⟨List.cons_ne_nil _ _,rfl⟩
    | false =>
      rw [List.takeWhile_cons_of_neg (by simp [known]),List.dropWhile_cons_of_neg (by simp [known])]
      exact Or.inl ⟨rfl,.divided n large later⟩

private theorem dropWhile_last {p : Nat → Bool} {code : Nat} {text : Str} (plain : p code = false)
    (last : text.getLast? = some code) : (text.dropWhile p).getLast? = some code := by
  obtain ⟨front,rfl⟩ := List.getLast?_eq_some_iff.mp last
  rw [List.dropWhile_append]
  split_ifs
  · simp [plain]
  · exact List.getLast?_concat

variable {tables}

private theorem strip_head {text : Str} (plain : tables.isSpace replacement = false)
    (head : (text.dropWhile tables.isSpace).head? = some replacement) :
    (tables.strip text).head? = some replacement := by
  rw [Unicode.Tables.strip,List.head?_reverse]
  apply dropWhile_last plain
  rw [List.getLast?_reverse]
  exact head

theorem strip_last {text : Str} (plain : tables.isSpace replacement = false)
    (last : text.getLast? = some replacement) :
    (tables.strip text).getLast? = some replacement := by
  have kept := dropWhile_last plain last
  rw [Unicode.Tables.strip,List.getLast?_reverse]
  rw [← List.head?_reverse] at kept
  obtain ⟨rest,shape⟩ := List.head?_eq_some_iff.mp kept
  rw [shape,List.dropWhile_cons_of_neg (by simp [plain]),List.head?_cons]

/-- A divided text is stripped as the whole is, or a replacement character stops the stripping. -/
theorem Divided.strip (plain : tables.isSpace replacement = false) {text text' : Str}
    (divided : Divided text text') :
    (margins tables text = margins tables text' ∧
      Divided (tables.strip text) (tables.strip text')) ∨
      (margins tables text ≠ margins tables text' ∧
        ((tables.strip text').head? = some replacement ∨
          (tables.strip text').getLast? = some replacement)) := by
  rcases divided.margin plain with ⟨front,inner⟩ | ⟨front,stopped⟩
  · rcases inner.reverse.margin plain with ⟨back,inner⟩ | ⟨back,stopped⟩
    · exact Or.inl ⟨Prod.ext front back,inner.reverse⟩
    · refine Or.inr ⟨fun same => back (congrArg Prod.snd same),Or.inr ?_⟩
      rw [Unicode.Tables.strip,List.getLast?_reverse]
      exact stopped
  · exact Or.inr ⟨fun same => front (congrArg Prod.fst same),Or.inl (strip_head plain stopped)⟩

end Margins

end QuilrMcp.Library.Utf8
