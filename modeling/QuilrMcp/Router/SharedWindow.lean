import QuilrMcp.Library.Trace
import QuilrMcp.Router.RateLimit
import Mathlib.Data.List.Perm.Basic
import Mathlib.Tactic.Linarith

/-! Workers that share one usage table. A check reads the clock first and runs its
IMMEDIATE transaction later, so transactions may commit out of clock order. Beside
the table the state keeps what no worker sees: every admitted request that was not
released, with its current amount and whether or not its row has been evicted since,
and the clock readings of the checks that have run. -/
namespace QuilrMcp.Router.SharedWindow
open RateLimit Library.Trace

/-- A check between its clock reading and its transaction. -/
structure Check where
  tenant : String
  requestId : String
  estimatedTokens : Int
  now : ℚ
  deriving DecidableEq

def Check.row (check : Check) : Row :=
  ⟨check.tenant,check.requestId,check.estimatedTokens,check.now,.reserved⟩

structure Shared where
  clock : ℚ
  waiting : List Check
  rows : List Row
  admitted : List Row
  drawn : List String
  readings : List ℚ
  deriving DecidableEq

def Shared.start (clock : ℚ) : Shared := ⟨clock,[],[],[],[],[]⟩

inductive Action
  | tick (elapsed : ℚ)
  | read (tenant requestId : String) (estimatedTokens : Int)
  | commit (index : Nat)
  | settle (reservation : Reservation) (actualTokens : Int)
  | release (reservation : Reservation)

def Shared.decide (limiter : RateLimiter) (state : Shared) (check : Check) :
    Except Failure (List Row × LimitDecision) :=
  limiter.checkAndReserve state.rows check.tenant check.requestId check.estimatedTokens check.now

/-- The clock never runs backwards and `uuid4` never repeats; everything else may
happen at any time and in any order. -/
def step (limiter : RateLimiter) (state : Shared) : Action → Option Shared
  | .tick elapsed => if 0 ≤ elapsed then some {state with clock := state.clock + elapsed} else none
  | .read tenant requestId estimatedTokens =>
    if requestId ∈ state.drawn then none else
      some {state with
        waiting := state.waiting ++ [⟨tenant,requestId,estimatedTokens,state.clock⟩]
        drawn := requestId::state.drawn}
  | .commit index => do
    let check ← state.waiting[index]?
    let waiting := state.waiting.eraseIdx index
    match state.decide limiter check with
    | .error _ => some {state with waiting := waiting}
    | .ok (rows,decision) => some {state with
        waiting := waiting
        rows := rows
        readings := check.now::state.readings
        admitted := if decision.allowed then state.admitted ++ [check.row] else state.admitted}
  | .settle reservation actualTokens => some {state with
      rows := RateLimit.settle state.rows reservation actualTokens
      admitted := RateLimit.settle state.admitted reservation actualTokens}
  | .release reservation => some {state with
      rows := RateLimit.release state.rows reservation
      admitted := RateLimit.release state.admitted reservation}

/-- The table is the admitted requests less the evicted ones, an evicted one was out of the
window of some check that has run, and no request id is used twice. -/
structure Consistent (limiter : RateLimiter) (state : Shared) : Prop where
  kept : state.rows.Sublist state.admitted
  evicted : ∀ row ∈ state.admitted, row ∉ state.rows →
    ∃ now ∈ state.readings, row.createdAt ≤ now - limiter.window
  distinct : (state.admitted.map Row.requestId ++ state.waiting.map Check.requestId).Nodup
  known : ∀ id ∈ state.admitted.map Row.requestId ++ state.waiting.map Check.requestId,
    id ∈ state.drawn

theorem start_consistent (limiter : RateLimiter) (clock : ℚ) :
    Consistent limiter (Shared.start clock) :=
  ⟨List.Sublist.slnil,by simp [Shared.start],by simp [Shared.start],by simp [Shared.start]⟩

private theorem release_ids (rows : List Row) (reservation : Reservation) :
    ((RateLimit.release rows reservation).map Row.requestId).Sublist (rows.map Row.requestId) :=
  List.Sublist.map _ List.filter_sublist

/-- The requests after a check: the decision only appends, and only when it admits. -/
theorem commit_cases (limiter : RateLimiter) (state next : Shared) (index : Nat)
    (taken : step limiter state (.commit index) = some next) :
    ∃ check, state.waiting[index]? = some check ∧ next.waiting = state.waiting.eraseIdx index ∧
      next.drawn = state.drawn ∧
      ((next.rows = state.rows ∧ next.admitted = state.admitted ∧ next.readings = state.readings) ∨
       (next.rows = limiter.evict state.rows check.now ∧ next.admitted = state.admitted ∧
        next.readings = check.now::state.readings) ∨
       (limiter.used state.rows check.tenant check.now + check.estimatedTokens ≤ limiter.limit ∧
        next.rows = limiter.evict state.rows check.now ++ [check.row] ∧
        next.admitted = state.admitted ++ [check.row] ∧
        next.readings = check.now::state.readings)) := by
  simp only [step,Option.bind_eq_bind,Option.bind_eq_some_iff] at taken
  obtain ⟨check,found,taken⟩ := taken
  refine ⟨check,found,?_⟩
  cases decided : state.decide limiter check with
  | error failure =>
    simp only [decided,Option.some.injEq] at taken
    subst next
    exact ⟨rfl,rfl,Or.inl ⟨rfl,rfl,rfl⟩⟩
  | ok result =>
    obtain ⟨rows,decision⟩ := result
    simp only [decided,Option.some.injEq] at taken
    subst next
    refine ⟨rfl,rfl,Or.inr ?_⟩
    rcases checkAndReserve_cases limiter _ _ _ _ _ _ _ decided with ⟨refused,evicted⟩ | ⟨admits,
      room,inserted⟩
    · exact Or.inl ⟨evicted,by simp [refused],rfl⟩
    · rw [used_evict] at room
      exact Or.inr ⟨room,inserted,by simp [admits],rfl⟩

private theorem commit_ids (state : Shared) (index : Nat) (check : Check)
    (found : state.waiting[index]? = some check) :
    ((state.admitted ++ [check.row]).map Row.requestId ++
      (state.waiting.eraseIdx index).map Check.requestId).Perm
      (state.admitted.map Row.requestId ++ state.waiting.map Check.requestId) := by
  have moved : (check::state.waiting.eraseIdx index).Perm state.waiting := by
    obtain ⟨bound,same⟩ := List.getElem?_eq_some_iff.mp found
    subst check
    exact List.getElem_cons_eraseIdx_perm bound
  simpa [Check.row] using (moved.map Check.requestId).append_left (state.admitted.map Row.requestId)

private theorem erased_ids (state : Shared) (index : Nat) :
    (state.admitted.map Row.requestId ++ (state.waiting.eraseIdx index).map Check.requestId).Sublist
      (state.admitted.map Row.requestId ++ state.waiting.map Check.requestId) :=
  (List.Sublist.refl _).append ((List.eraseIdx_sublist _ _).map _)

private theorem evict_dropped (limiter : RateLimiter) (rows : List Row) (now : ℚ) (row : Row)
    (present : row ∈ rows) (dropped : row ∉ limiter.evict rows now) :
    row.createdAt ≤ now - limiter.window := by
  simpa [RateLimiter.evict,present] using dropped

private theorem evicted_later (limiter : RateLimiter) (state : Shared) (check : Check)
    (consistent : Consistent limiter state) (row : Row) (present : row ∈ state.admitted)
    (dropped : row ∉ limiter.evict state.rows check.now) :
    ∃ now ∈ check.now::state.readings, row.createdAt ≤ now - limiter.window := by
  by_cases stored : row ∈ state.rows
  · exact ⟨check.now,List.mem_cons_self,evict_dropped limiter _ _ row stored dropped⟩
  · obtain ⟨now,read,old⟩ := consistent.evicted row present stored
    exact ⟨now,List.mem_cons_of_mem _ read,old⟩

private theorem commit_consistent (limiter : RateLimiter) (state : Shared) (index : Nat)
    (next : Shared) (consistent : Consistent limiter state)
    (taken : step limiter state (.commit index) = some next) :
    Consistent limiter next := by
  obtain ⟨check,found,waiting,drawn,result⟩ := commit_cases limiter state next index taken
  have fewer : (limiter.evict state.rows check.now).Sublist state.admitted :=
    List.filter_sublist.trans consistent.kept
  have erased := erased_ids state index
  rcases result with ⟨rows,admitted,readings⟩ | ⟨rows,admitted,readings⟩ | ⟨-,rows,
    admitted,readings⟩
  · refine ⟨by rw [rows,admitted]; exact consistent.kept,?_,?_,?_⟩
    · rw [rows,admitted,readings]; exact consistent.evicted
    · rw [admitted,waiting]; exact consistent.distinct.sublist erased
    · rw [admitted,waiting,drawn]; exact fun id member => consistent.known id (erased.subset member)
  · refine ⟨by rw [rows,admitted]; exact fewer,?_,?_,?_⟩
    · rw [rows,admitted,readings]; exact evicted_later limiter state check consistent
    · rw [admitted,waiting]; exact consistent.distinct.sublist erased
    · rw [admitted,waiting,drawn]; exact fun id member => consistent.known id (erased.subset member)
  · have moved := commit_ids state index check found
    refine ⟨by rw [rows,admitted]; exact fewer.append (List.Sublist.refl _),?_,?_,?_⟩
    · rw [rows,admitted,readings]
      intro row present dropped
      have outside := not_or.mp (fun member => dropped (List.mem_append.mpr member))
      have before := (List.mem_append.mp present).resolve_right outside.2
      exact evicted_later limiter state check consistent row before outside.1
    · rw [admitted,waiting]; exact moved.nodup_iff.mpr consistent.distinct
    · rw [admitted,waiting,drawn]; exact fun id member => consistent.known id (moved.subset member)

theorem step_consistent (limiter : RateLimiter) (state : Shared) (action : Action) (next : Shared)
    (consistent : Consistent limiter state) (taken : step limiter state action = some next) :
    Consistent limiter next := by
  cases action with
  | commit index => exact commit_consistent limiter state index next consistent taken
  | tick elapsed =>
    simp only [step] at taken
    split_ifs at taken
    cases taken
    exact ⟨consistent.kept,consistent.evicted,consistent.distinct,consistent.known⟩
  | read tenant requestId estimatedTokens =>
    simp only [step] at taken
    split_ifs at taken with fresh
    cases taken
    refine ⟨consistent.kept,consistent.evicted,?_,?_⟩
    · rw [List.map_append,← List.append_assoc]
      refine consistent.distinct.append (by simp) ?_
      intro id member drawn
      have same : id = requestId := by simpa using drawn
      exact fresh (same ▸ consistent.known id member)
    · intro id member
      rw [List.map_append,← List.append_assoc,List.mem_append] at member
      rcases member with old | new
      · exact List.mem_cons_of_mem _ (consistent.known id old)
      · simp only [List.map_cons,List.map_nil,List.mem_singleton] at new
        exact new ▸ List.mem_cons_self
  | settle reservation actualTokens =>
    cases taken
    refine ⟨consistent.kept.map _,?_,?_,?_⟩
    · intro row present missing
      obtain ⟨before,member,rfl⟩ := List.mem_map.mp present
      have absent : before ∉ state.rows := fun stored => missing (List.mem_map_of_mem stored)
      obtain ⟨now,read,old⟩ := consistent.evicted before member absent
      refine ⟨now,read,?_⟩
      split_ifs <;> exact old
    · rw [settle_ids]; exact consistent.distinct
    · rw [settle_ids]; exact consistent.known
  | release reservation =>
    cases taken
    have fewer :=
      (release_ids state.admitted reservation).append
      (List.Sublist.refl (state.waiting.map Check.requestId))
    refine ⟨consistent.kept.filter _,?_,consistent.distinct.sublist fewer,
      fun id member => consistent.known id (fewer.subset member)⟩
    intro row present missing
    obtain ⟨member,other⟩ := List.mem_filter.mp present
    exact consistent.evicted row member (fun stored => missing (List.mem_filter.mpr ⟨stored,other⟩))

theorem reachable_consistent (limiter : RateLimiter) (clock : ℚ) (actions : List Action)
    (state : Shared) (taken : run (step limiter) (Shared.start clock) actions = some state) :
    Consistent limiter state :=
  run_invariant (step_consistent limiter) (start_consistent limiter clock) taken

/-- No request of the tenant that the check's own window still covers has been evicted
by a check with a later clock reading that committed first. -/
def Unevicted (limiter : RateLimiter) (state : Shared) (check : Check) : Prop :=
  ∀ row ∈ state.admitted, row.tenant = check.tenant →
    check.now - limiter.window < row.createdAt → row ∈ state.rows

/-- Checks that run in the order of their clock readings evict nothing under one another. -/
theorem ordered_unevicted (limiter : RateLimiter) (state : Shared) (check : Check)
    (consistent : Consistent limiter state) (ordered : ∀ now ∈ state.readings, now ≤ check.now) :
    Unevicted limiter state check := by
  intro row present _ covered
  by_contra missing
  obtain ⟨now,read,old⟩ := consistent.evicted row present missing
  linarith [ordered now read]

/-- Where nothing in the window was evicted, the table and the full history sum alike. -/
theorem used_admitted (limiter : RateLimiter) (state : Shared) (check : Check)
    (consistent : Consistent limiter state) (unevicted : Unevicted limiter state check) :
    limiter.used state.admitted check.tenant check.now =
      limiter.used state.rows check.tenant check.now := by
  have fewer : (limiter.live state.rows check.tenant check.now).Sublist
      (limiter.live state.admitted check.tenant check.now) := consistent.kept.filter _
  have nodup : state.admitted.Nodup := (List.nodup_append.mp consistent.distinct).1.of_map
  have all : limiter.live state.admitted check.tenant check.now ⊆
      limiter.live state.rows check.tenant check.now := by
    intro row member
    simp only [RateLimiter.live,List.mem_filter,Bool.and_eq_true,decide_eq_true_eq] at member ⊢
    exact ⟨unevicted row member.1 member.2.1 member.2.2,member.2⟩
  have same := fewer.eq_of_length_le (List.subperm_of_subset (nodup.filter _) all).length_le
  rw [RateLimiter.used,RateLimiter.used,← same]

theorem used_append_row (limiter : RateLimiter) (rows : List Row) (check : Check) :
    limiter.used (rows ++ [check.row]) check.tenant check.now =
      limiter.used rows check.tenant check.now + check.estimatedTokens := by
  have covers : check.now - limiter.window < check.now := by linarith [limiter.window_pos]
  simp [RateLimiter.used,RateLimiter.live,List.filter_append,Check.row,covers]

/-- The check at `index` runs its transaction in `state`, is admitted and leaves `next`. -/
structure Admission (limiter : RateLimiter) (state next : Shared) (check : Check) where
  index : Nat
  found : state.waiting[index]? = some check
  taken : step limiter state (.commit index) = some next
  grew : next.admitted = state.admitted ++ [check.row]

/-- What right after an admitted check the requests of its tenant may sum to. -/
def WindowBounded (limiter : RateLimiter) (next : Shared) (check : Check) : Prop :=
  limiter.used next.admitted check.tenant check.now ≤ limiter.limit

/-- The sliding window holds right after an admitted check of any run, under any
interleaving, when no request the check's window covers was evicted before it. -/
theorem admission_bounded (limiter : RateLimiter) (clock : ℚ) (actions : List Action)
    (state next : Shared) (check : Check)
    (reached : run (step limiter) (Shared.start clock) actions = some state)
    (admission : Admission limiter state next check)
    (unevicted : Unevicted limiter state check) : WindowBounded limiter next check := by
  have consistent := reachable_consistent limiter clock actions state reached
  obtain ⟨index,found,taken,grew⟩ := admission
  obtain ⟨same,found',-,-,result⟩ := commit_cases limiter state next index taken
  obtain rfl : check = same := Option.some.inj (found.symm.trans found')
  have changed : next.admitted ≠ state.admitted := by simp [grew]
  rcases result with ⟨-,kept,-⟩ | ⟨-,kept,-⟩ | ⟨room,-,-,-⟩
  · exact absurd kept changed
  · exact absurd kept changed
  · rw [WindowBounded,grew,used_append_row,used_admitted limiter state check consistent unevicted]
    exact room

/-- Four workers. The last check of `globex` reads the clock after the last one of `acme` and commits before it; it
evicts `r1`, which is settled after that. -/
def crowd : List Action :=
  [.read "acme" "r1" 20000,.commit 0,.tick 30,.read "acme" "r2" 20000,.read "globex" "r3" 10,
    .commit 1,.commit 0,.settle ⟨"r2","acme",20000⟩ 45000,.tick 32,.read "acme" "r4" 4000,.tick 1,
    .read "globex" "r5" 10,.commit 1,.settle ⟨"r1","acme",20000⟩ 25000]

def crowded : Shared where
  clock := 63
  waiting := [⟨"acme","r4",4000,62⟩]
  rows := [⟨"globex","r3",10,30,.reserved⟩,⟨"acme","r2",45000,30,.settled⟩,
    ⟨"globex","r5",10,63,.reserved⟩]
  admitted := [⟨"acme","r1",25000,0,.settled⟩,⟨"globex","r3",10,30,.reserved⟩,
    ⟨"acme","r2",45000,30,.settled⟩,⟨"globex","r5",10,63,.reserved⟩]
  drawn := ["r5","r4","r3","r2","r1"]
  readings := [63,30,30,0]

def lastCheck : Check := ⟨"acme","r4",4000,62⟩

theorem admission_bounded_crowd : WindowBounded defaultLimiter
    {crowded with
      waiting := []
      rows := crowded.rows ++ [lastCheck.row]
      admitted := crowded.admitted ++ [lastCheck.row]
      readings := 62::crowded.readings} lastCheck := by
  apply admission_bounded defaultLimiter 0 crowd crowded
  · decide +kernel
  · exact ⟨0,rfl,by decide +kernel,rfl⟩
  · unfold Unevicted
    decide +kernel

/-- A check that read 100 seconds waits while one that reads 106 commits and evicts a row of
second 45. The late check then sees an empty window and doubles the limit. -/
theorem late_check_overruns :
    ¬ ∀ (limiter : RateLimiter) (clock : ℚ) (actions : List Action) (state next : Shared) (check : Check),
      run (step limiter) (Shared.start clock) actions = some state →
      Admission limiter state next check → WindowBounded limiter next check := by
  intro bounded
  have overrun := bounded defaultLimiter 0
    [.tick 45,.read "acme" "r1" 50000,.commit 0,.tick 55,.read "acme" "r2" 50000,
      .tick 6,.read "globex" "r3" 1,.commit 1]
    ⟨106,[⟨"acme","r2",50000,100⟩],[⟨"globex","r3",1,106,.reserved⟩],
      [⟨"acme","r1",50000,45,.reserved⟩,⟨"globex","r3",1,106,.reserved⟩],["r3","r2","r1"],[106,45]⟩
    ⟨106,[],[⟨"globex","r3",1,106,.reserved⟩,⟨"acme","r2",50000,100,.reserved⟩],
      [⟨"acme","r1",50000,45,.reserved⟩,⟨"globex","r3",1,106,.reserved⟩,
        ⟨"acme","r2",50000,100,.reserved⟩],
      ["r3","r2","r1"],[100,106,45]⟩
    ⟨"acme","r2",50000,100⟩ (by decide +kernel) ⟨0,rfl,by decide +kernel,rfl⟩
  exact absurd overrun (by unfold WindowBounded; decide +kernel)

end QuilrMcp.Router.SharedWindow
