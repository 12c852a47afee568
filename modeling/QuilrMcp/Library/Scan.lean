import QuilrMcp.Library.Regex

/-! The calls of the search engine: `search` from a position, `matchAt` a position within a
limit, and `finditer` with partial matches. A partial match is reported only where no complete
match is left; it begins at the leftmost position from which the engine looks past the end. -/
namespace QuilrMcp.Library.Search
open Text

def searchIn (regex : Regex) (text : Str) : Nat → Nat → Option (Nat × Nat)
  | 0, _ => none
  | count+1, i =>
    match (ends regex text i).head? with
    | some stop => some (i,stop)
    | none => searchIn regex text count (i + 1)

/-- The leftmost match that begins at `start` or after it. -/
def search (regex : Regex) (text : Str) (start : Nat) : Option (Nat × Nat) :=
  searchIn regex text (text.length + 1 - start) start

/-- The match at `start` in the text up to `stop`. -/
def matchAt (regex : Regex) (text : Str) (start stop : Nat) : Option Nat :=
  (ends regex (text.take stop) start).head?

def firstTouched (regex : Regex) (text : Str) : Nat → Nat → Option Nat
  | 0, _ => none
  | count+1, i => if touches regex text i then some i else firstTouched regex text count (i + 1)

structure Hit where
  start : Nat
  stop : Nat
  isPartial : Bool
  deriving DecidableEq

def scan (regex : Regex) (text : Str) : Nat → Nat → List Hit
  | 0, _ => []
  | fuel+1, start =>
    match search regex text start with
    | some (i,stop) => ⟨i,stop,false⟩::scan regex text fuel (if i < stop then stop else stop + 1)
    | none =>
      match firstTouched regex text (text.length + 1 - start) start with
      | some i => [⟨i,text.length,true⟩]
      | none => []

/-- `finditer` with partial matches. -/
def finditer (regex : Regex) (text : Str) : List Hit := scan regex text (text.length + 2) 0

private theorem searchIn_some (regex : Regex) (text : Str) (count i start stop : Nat)
    (found : searchIn regex text count i = some (start,stop)) :
    i ≤ start ∧ start < i + count ∧ (ends regex text start).head? = some stop ∧
      ∀ j, i ≤ j → j < start → ends regex text j = [] := by
  induction count generalizing i with
  | zero => contradiction
  | succ count ih =>
    rw [searchIn] at found
    cases here : (ends regex text i).head? with
    | some e =>
      rw [here] at found
      cases found
      exact ⟨Nat.le_refl _,by omega,here,fun j low high => absurd low (by omega)⟩
    | none =>
      rw [here] at found
      obtain ⟨low,high,first,before⟩ := ih (i + 1) found
      refine ⟨by omega,by omega,first,fun j above below => ?_⟩
      by_cases same : j = i
      · rw [same]
        exact List.head?_eq_none_iff.mp here
      · exact before j (by omega) below

private theorem searchIn_none (regex : Regex) (text : Str) (count i : Nat)
    (missing : searchIn regex text count i = none) (j : Nat) (low : i ≤ j) (high : j < i + count) :
    ends regex text j = [] := by
  induction count generalizing i with
  | zero => omega
  | succ count ih =>
    rw [searchIn] at missing
    cases here : (ends regex text i).head? with
    | some e => rw [here] at missing; contradiction
    | none =>
      rw [here] at missing
      by_cases same : j = i
      · rw [same]
        exact List.head?_eq_none_iff.mp here
      · exact ih (i + 1) missing (by omega) (by omega)

theorem search_some {regex : Regex} {text : Str} {from_ start stop : Nat}
    (found : search regex text from_ = some (start,stop)) :
    from_ ≤ start ∧ start ≤ text.length ∧ (ends regex text start).head? = some stop ∧
      ∀ j, from_ ≤ j → j < start → ends regex text j = [] := by
  obtain ⟨low,high,first,before⟩ := searchIn_some regex text _ from_ start stop found
  exact ⟨low,by omega,first,before⟩

theorem search_none {regex : Regex} {text : Str} {from_ : Nat}
    (missing : search regex text from_ = none) (j : Nat) (low : from_ ≤ j)
    (high : j ≤ text.length) : ends regex text j = [] :=
  searchIn_none regex text _ from_ missing j low (by omega)

theorem search_bound {regex : Regex} {text : Str} {from_ start stop : Nat}
    (found : search regex text from_ = some (start,stop)) :
    start + minLength regex ≤ stop ∧ stop ≤ text.length := by
  obtain ⟨_,inside,first,_⟩ := search_some found
  exact ends_bound regex text start inside stop (List.mem_of_mem_head? first)

theorem search_eq_none_iff (regex : Regex) (text : Str) (from_ : Nat) :
    search regex text from_ = none ↔ ∀ j, from_ ≤ j → j ≤ text.length → ends regex text j = [] := by
  constructor
  · exact fun missing j low high => search_none missing j low high
  · intro empty
    cases found : search regex text from_ with
    | none => rfl
    | some pair =>
      obtain ⟨low,inside,first,_⟩ := search_some found
      rw [empty pair.1 low inside] at first
      contradiction

private theorem firstTouched_le (regex : Regex) (text : Str) (count i j : Nat) (low : i ≤ j)
    (high : j < i + count) (open_ : touches regex text j = true) :
    ∃ first, firstTouched regex text count i = some first ∧ first ≤ j := by
  induction count generalizing i with
  | zero => omega
  | succ count ih =>
    rw [firstTouched]
    split_ifs with here
    · exact ⟨i,rfl,low⟩
    · have other : i ≠ j := fun same => here (same ▸ open_)
      exact ih (i + 1) (by omega) (by omega)

theorem drop_run (accept : Nat → Bool) (text : Str) :
    text.drop (text.takeWhile accept).length = text.dropWhile accept := by
  have whole := List.takeWhile_append_dropWhile (p := accept) (l := text)
  exact (congrArg (List.drop _) whole.symm).trans List.drop_left

/-- At the start of a text a run is matched as far as it goes. -/
theorem matchAt_run (accept : Nat → Bool) (text : Str) :
    (matchAt (.many accept 1) text 0 text.length).getD 0 = (text.takeWhile accept).length := by
  have run : runLength accept text 0 = (text.takeWhile accept).length := rfl
  rw [matchAt,List.take_length,ends,run,Nat.zero_add,Nat.add_sub_cancel,List.head?_map]
  cases (text.takeWhile accept).length with
  | zero => rfl
  | succ n =>
    rw [List.head?_range,if_neg (Nat.succ_ne_zero n)]
    rfl

/-- A hit that more text could change. -/
def Hit.unfinished (hit : Hit) (text : Str) : Prop := hit.isPartial = true ∨ hit.stop = text.length

private theorem scan_unfinished (regex : Regex) (text : Str) (advances : 0 < minLength regex)
    (fuel from_ j : Nat) (low : from_ ≤ j) (high : j ≤ text.length)
    (enough : text.length < fuel + from_) (open_ : ends regex text j ≠ [] ∨
      touches regex text j = true ∧ ∀ i, j < i → i ≤ text.length → ends regex text i = [])
    (clear : ∀ hit ∈ scan regex text fuel from_, hit.isPartial = false → hit.start ≤ j →
      hit.stop ≤ j ∨ hit.stop = text.length) :
    ∃ hit ∈ scan regex text fuel from_, hit.unfinished text ∧ hit.start ≤ j := by
  induction fuel generalizing from_ with
  | zero => omega
  | succ fuel ih =>
    rw [scan] at clear ⊢
    cases found : search regex text from_ with
    | some pair =>
      obtain ⟨start,stop⟩ := pair
      have grows := (search_bound found).1
      obtain ⟨above,inside,first,empty⟩ := search_some found
      have before : start ≤ j := by
        by_contra after
        rcases open_ with matched | ⟨_,none_⟩
        · exact matched (empty j low (by omega))
        · rw [none_ start (by omega) inside] at first
          contradiction
      simp only [found,if_pos (show start < stop by omega)] at clear ⊢
      rcases clear _ List.mem_cons_self rfl before with short | reaching
      · obtain ⟨hit,member,rest⟩ := ih stop short (by omega) (fun hit member =>
          clear hit (List.mem_cons_of_mem _ member))
        exact ⟨hit,List.mem_cons_of_mem _ member,rest⟩
      · exact ⟨_,List.mem_cons_self,Or.inr reaching,before⟩
    | none =>
      have touched : touches regex text j = true := by
        rcases open_ with matched | ⟨touched,_⟩
        · exact absurd (search_none found j low high) matched
        · exact touched
      obtain ⟨first,located,before⟩ :=
        firstTouched_le regex text (text.length + 1 - from_) from_ j low (by omega) touched
      simp only [located]
      exact ⟨_,List.mem_singleton_self _,Or.inl rfl,before⟩

/-- Where a match begins, or where the engine looks past the end and no match begins later, an
unfinished hit begins at the place or before it, unless a complete match covers the place and stops
short of the end. -/
theorem finditer_unfinished (regex : Regex) (text : Str) (advances : 0 < minLength regex) (j : Nat)
    (high : j ≤ text.length)
    (open_ : ends regex text j ≠ [] ∨
      touches regex text j = true ∧ ∀ i, j < i → i ≤ text.length → ends regex text i = [])
    (clear : ∀ hit ∈ finditer regex text, hit.isPartial = false → hit.start ≤ j →
      hit.stop ≤ j ∨ hit.stop = text.length) :
    ∃ hit ∈ finditer regex text, hit.unfinished text ∧ hit.start ≤ j :=
  scan_unfinished regex text advances _ 0 j (Nat.zero_le _) high (by omega) open_ clear

private theorem scan_complete (regex : Regex) (text : Str) (fuel from_ : Nat) :
    ∀ hit ∈ scan regex text fuel from_, hit.isPartial = false →
      hit.start ≤ text.length ∧ (ends regex text hit.start).head? = some hit.stop := by
  induction fuel generalizing from_ with
  | zero => exact fun _ member => absurd member List.not_mem_nil
  | succ fuel ih =>
    intro hit member complete
    rw [scan] at member
    cases found : search regex text from_ with
    | some pair =>
      simp only [found,List.mem_cons] at member
      rcases member with rfl | later
      · exact ⟨(search_some found).2.1,(search_some found).2.2.1⟩
      · exact ih _ hit later complete
    | none =>
      simp only [found] at member
      cases located : firstTouched regex text (text.length + 1 - from_) from_ with
      | none => rw [located] at member; exact absurd member List.not_mem_nil
      | some first =>
        rw [located] at member
        rw [List.mem_singleton.mp member] at complete
        contradiction

theorem finditer_complete (regex : Regex) (text : Str) :
    ∀ hit ∈ finditer regex text, hit.isPartial = false →
    hit.start ≤ text.length ∧ (ends regex text hit.start).head? = some hit.stop :=
  scan_complete regex text _ 0

private theorem firstTouched_touches (regex : Regex) (text : Str) (count i first : Nat)
    (located : firstTouched regex text count i = some first) : touches regex text first = true := by
  induction count generalizing i with
  | zero => contradiction
  | succ count ih =>
    rw [firstTouched] at located
    split_ifs at located with here
    · exact Option.some.inj located ▸ here
    · exact ih (i + 1) located

private theorem scan_open (regex : Regex) (text : Str) (fuel from_ : Nat) :
    ∀ hit ∈ scan regex text fuel from_, hit.isPartial = true →
    touches regex text hit.start = true := by
  induction fuel generalizing from_ with
  | zero => exact fun _ member => absurd member List.not_mem_nil
  | succ fuel ih =>
    intro hit member unfinished
    rw [scan] at member
    cases found : search regex text from_ with
    | some pair =>
      simp only [found,List.mem_cons] at member
      rcases member with rfl | later
      · contradiction
      · exact ih _ hit later unfinished
    | none =>
      simp only [found] at member
      cases located : firstTouched regex text (text.length + 1 - from_) from_ with
      | none => rw [located] at member; exact absurd member List.not_mem_nil
      | some first =>
        rw [located] at member
        rw [List.mem_singleton.mp member]
        exact firstTouched_touches regex text _ from_ first located

/-- From the start of an unfinished hit to the end there are only code points of the expression. -/
theorem unfinished_covered (accept : Nat → Prop) (regex : Regex) (consumes : Consumes accept regex) (text : Str) (hit : Hit)
    (member : hit ∈ finditer regex text) (unfinished : hit.unfinished text) : Covered accept text hit.start text.length := by
  cases open_ : hit.isPartial with
  | true => exact touches_covered accept regex consumes text hit.start (scan_open regex text _ 0 hit member open_)
  | false =>
    have reaches : hit.stop = text.length := unfinished.resolve_left (by simp [open_])
    have first := (finditer_complete regex text hit member open_).2
    rw [reaches] at first
    exact ends_covered accept regex consumes.within text hit.start _ (List.mem_of_mem_head? first)

/-- An unfinished hit of a bounded expression begins within its reach of the end. -/
theorem unfinished_reach (regex : Regex) (text : Str) (size reach : Nat)
    (bounded : span regex = some (size,reach)) (hit : Hit) (member : hit ∈ finditer regex text)
    (unfinished : hit.unfinished text) : text.length ≤ hit.start + max size reach := by
  cases open_ : hit.isPartial with
  | true =>
    have touched := scan_open regex text _ 0 hit member open_
    by_contra far
    rw [touches_of_reach regex text size reach bounded hit.start (by omega)] at touched
    contradiction
  | false =>
    have reaches : hit.stop = text.length := unfinished.resolve_left (by simp [open_])
    have first := (finditer_complete regex text hit member open_).2
    have short := ends_size regex text size reach bounded hit.start hit.stop
      (List.mem_of_mem_head? first)
    omega

end QuilrMcp.Library.Search
