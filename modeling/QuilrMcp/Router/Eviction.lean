import QuilrMcp.Library.Trace
import QuilrMcp.Router.RateLimit
import Mathlib.Tactic.Linarith

/-! The evicting limiter against one that keeps its events for ever. -/
namespace QuilrMcp.Router.Eviction
open RateLimit Library.Trace

inductive Operation
  | checkAndReserve (tenant requestId : String) (estimatedTokens : Int) (now : ℚ)
  | settle (reservation : Reservation) (actualTokens : Int)
  | release (reservation : Reservation)
  | usage (tenant : String) (now : ℚ)

inductive Answer
  | failed (failure : Failure)
  | decided (decision : LimitDecision)
  | updated
  | used (total : Int)
  deriving DecidableEq

def Operation.tenant : Operation → String
  | .checkAndReserve tenant _ _ _ => tenant
  | .settle reservation _ => reservation.tenant
  | .release reservation => reservation.tenant
  | .usage tenant _ => tenant

/-- The clock reading of an operation that takes one. -/
def Operation.reading : Operation → Option ℚ
  | .checkAndReserve _ _ _ now => some now
  | .usage _ now => some now
  | _ => none

/-- The request id that an operation draws. -/
def Operation.drawn : Operation → Option String
  | .checkAndReserve _ requestId _ _ => some requestId
  | _ => none

def readings (operations : List Operation) : List ℚ := operations.filterMap Operation.reading
def drawn (operations : List Operation) : List String := operations.filterMap Operation.drawn

section Execution
variable (limiter : RateLimiter)

/-- One operation of the limiter over its table. -/
def execute (rows : List Row) : Operation → List Row × Answer
  | .checkAndReserve tenant requestId estimatedTokens now =>
    match limiter.checkAndReserve rows tenant requestId estimatedTokens now with
    | .error failure => (rows,.failed failure)
    | .ok (rows,decision) => (rows,.decided decision)
  | .settle reservation actualTokens => (settle rows reservation actualTokens,.updated)
  | .release reservation => (release rows reservation,.updated)
  | .usage tenant now => (rows,.used (limiter.usage rows tenant now))

/-- The reference: it only sums what is in the window and never deletes an expired event. -/
def remember (events : List Row) : Operation → List Row × Answer
  | .checkAndReserve tenant requestId estimatedTokens now =>
    let used := limiter.used events tenant now
    if used + estimatedTokens > limiter.limit then
      (events,.decided ⟨false,used,limiter.limit,none,
        some (limiter.retryAfter events tenant now estimatedTokens)⟩)
    else (events ++ [⟨tenant,requestId,estimatedTokens,now,.reserved⟩],
      .decided ⟨true,used + estimatedTokens,limiter.limit,some ⟨requestId,tenant,estimatedTokens⟩,
        none⟩)
  | .settle reservation actualTokens => (settle events reservation actualTokens,.updated)
  | .release reservation => (release events reservation,.updated)
  | .usage tenant now => (events,.used (limiter.used events tenant now))

theorem evict_evict (rows : List Row) (now later : ℚ) (order : now ≤ later) :
    limiter.evict (limiter.evict rows now) later = limiter.evict rows later := by
  simp only [RateLimiter.evict,List.filter_filter]
  apply List.filter_congr
  intro row _
  by_cases gone : row.createdAt ≤ later - limiter.window
  · simp [gone]
  · have kept : ¬ row.createdAt ≤ now - limiter.window := fun old => gone (by linarith)
    simp [gone,kept]

theorem evict_settle (rows : List Row) (reservation : Reservation) (actualTokens : Int) (now : ℚ) :
    limiter.evict (settle rows reservation actualTokens) now =
      settle (limiter.evict rows now) reservation actualTokens := by
  simp only [RateLimiter.evict,settle,List.filter_map]
  congr 1
  apply List.filter_congr
  intro row _
  simp only [Function.comp_apply]
  split_ifs <;> rfl

theorem evict_release (rows : List Row) (reservation : Reservation) (now : ℚ) :
    limiter.evict (release rows reservation) now =
      release (limiter.evict rows now) reservation := by
  simp only [RateLimiter.evict,release,List.filter_filter]
  apply List.filter_congr
  intro row _
  rw [Bool.and_comm]

/-- What a check and a usage query read depends on the rows in the window alone. -/
theorem live_of_evict {rows events : List Row} {now : ℚ}
    (same : limiter.evict rows now = limiter.evict events now) (tenant : String) :
    limiter.live rows tenant now = limiter.live events tenant now := by
  rw [← live_evict,same,live_evict]

theorem used_of_evict {rows events : List Row} {now : ℚ}
    (same : limiter.evict rows now = limiter.evict events now) (tenant : String) :
    limiter.used rows tenant now = limiter.used events tenant now := by
  rw [RateLimiter.used,live_of_evict limiter same,RateLimiter.used]

/-- At every reading still to come the table and the history have the same rows in the window, the
clock does not run backwards, and every request id still to come is new and drawn once. -/
structure InStep (operations : List Operation) (rows events : List Row) : Prop where
  same : ∀ now ∈ readings operations, limiter.evict rows now = limiter.evict events now
  ordered : (readings operations).Pairwise (· ≤ ·)
  fresh : ∀ id ∈ drawn operations, id ∉ rows.map Row.requestId
  distinct : (drawn operations).Nodup

private theorem evict_ids (rows : List Row) (now : ℚ) :
    (limiter.evict rows now).map Row.requestId ⊆ rows.map Row.requestId :=
  List.map_subset _ List.filter_sublist.subset

private theorem check_inStep {tenant requestId : String} {estimatedTokens : Int} {now : ℚ}
    {rest : List Operation} {rows events : List Row}
    (related : InStep limiter (.checkAndReserve tenant requestId estimatedTokens now::rest)
      rows events) :
    (execute limiter rows (.checkAndReserve tenant requestId estimatedTokens now)).2 =
        (remember limiter events (.checkAndReserve tenant requestId estimatedTokens now)).2 ∧
      InStep limiter rest
        (execute limiter rows (.checkAndReserve tenant requestId estimatedTokens now)).1
        (remember limiter events (.checkAndReserve tenant requestId estimatedTokens now)).1 := by
  obtain ⟨same,ordered,fresh,distinct⟩ := related
  have here : limiter.evict rows now = limiter.evict events now := same now List.mem_cons_self
  obtain ⟨later,ordered⟩ := List.pairwise_cons.mp ordered
  obtain ⟨unused,distinct⟩ := List.nodup_cons.mp distinct
  have kept (next : ℚ) (member : next ∈ readings rest) :
      limiter.evict (limiter.evict rows now) next = limiter.evict events next := by
    rw [here,evict_evict limiter _ _ _ (later next member)]
  have new : requestId ∉ (limiter.evict rows now).map Row.requestId :=
    fun present => fresh requestId List.mem_cons_self (evict_ids limiter rows now present)
  have before (id : String) (member : id ∈ drawn rest) : id ∉ (limiter.evict rows now).map
    Row.requestId :=
    fun present => fresh id (List.mem_cons_of_mem _ member) (evict_ids limiter rows now present)
  have sum : limiter.used (limiter.evict rows now) tenant now = limiter.used events tenant now := by
    rw [used_evict,used_of_evict limiter here]
  have wait : limiter.retryAfter (limiter.evict rows now) tenant now estimatedTokens =
      limiter.retryAfter events tenant now estimatedTokens := by
    rw [RateLimiter.retryAfter,live_evict,live_of_evict limiter here,RateLimiter.retryAfter]
  by_cases exceeds : limiter.used events tenant now + estimatedTokens > limiter.limit
  · have refused : limiter.checkAndReserve rows tenant requestId estimatedTokens now =
      .ok (limiter.evict rows now,
        ⟨false,limiter.used events tenant now,limiter.limit,none,
          some (limiter.retryAfter events tenant now estimatedTokens)⟩) := by
      simp only [RateLimiter.checkAndReserve,sum,wait,if_pos exceeds]
      rfl
    simp only [execute,remember,refused,if_pos exceeds,true_and]
    exact ⟨kept,ordered,before,distinct⟩
  · have admitted : limiter.checkAndReserve rows tenant requestId estimatedTokens now =
        .ok (limiter.evict rows now ++ [⟨tenant,requestId,estimatedTokens,now,.reserved⟩],
        ⟨true,limiter.used events tenant now + estimatedTokens,limiter.limit,
          some ⟨requestId,tenant,estimatedTokens⟩,none⟩) := by
      simp only [RateLimiter.checkAndReserve,sum,if_neg exceeds,RateLimit.insert,if_neg new]
      rfl
    simp only [execute,remember,admitted,if_neg exceeds,true_and]
    refine ⟨?_,ordered,?_,distinct⟩
    · intro next member
      have old := kept next member
      simp only [RateLimiter.evict,List.filter_append] at old ⊢
      rw [old]
    · intro id member present
      rw [List.map_append,List.mem_append] at present
      rcases present with old | own
      · exact before id member old
      · have equal : id = requestId := by simpa using own
        exact unused (equal ▸ member)

theorem step_inStep (operation : Operation) (rest : List Operation) (rows events : List Row)
    (related : InStep limiter (operation::rest) rows events) :
    (execute limiter rows operation).2 = (remember limiter events operation).2 ∧
      InStep limiter rest (execute limiter rows operation).1
        (remember limiter events operation).1 := by
  cases operation with
  | checkAndReserve tenant requestId estimatedTokens now => exact check_inStep limiter related
  | settle reservation actualTokens =>
    refine ⟨rfl,?_,related.ordered,?_,related.distinct⟩
    · intro now member
      simp only [execute,remember]
      rw [evict_settle,evict_settle,related.same now member]
    · intro id member
      simp only [execute]
      rw [settle_ids]
      exact related.fresh id member
  | release reservation =>
    refine ⟨rfl,?_,related.ordered,?_,related.distinct⟩
    · intro now member
      simp only [execute,remember]
      rw [evict_release,evict_release,related.same now member]
    · intro id member present
      exact related.fresh id member (List.map_subset _ List.filter_sublist.subset present)
  | usage tenant now =>
    obtain ⟨same,ordered,fresh,distinct⟩ := related
    have here := used_of_evict limiter (same now List.mem_cons_self) tenant
    refine ⟨?_,fun next member => same next (List.mem_cons_of_mem _ member),
      (List.pairwise_cons.mp ordered).2,fresh,distinct⟩
    rw [execute,remember,RateLimiter.usage,here]

/-- The requests in the table and those still to come, with their tenants. -/
def owners (operations : List Operation) (rows : List Row) : List (String × String) :=
  rows.map (fun row => (row.requestId,row.tenant)) ++
    operations.filterMap (fun operation => operation.drawn.map (fun id => (id,operation.tenant)))

/-- The request id of the row that an operation settles or releases. -/
def Operation.target : Operation → Option String
  | .settle reservation _ => some reservation.requestId
  | .release reservation => some reservation.requestId
  | _ => none

/-- A tenant settles and releases only what was reserved for it. -/
def Owned (operations : List Operation) (rows : List Row) : Prop :=
  ∀ operation ∈ operations, ∀ owner ∈ owners operations rows,
    operation.target = some owner.1 → owner.2 = operation.tenant

def ofTenant (tenant : String) (rows : List Row) : List Row :=
  rows.filter (fun row => row.tenant = tenant)

theorem live_ofTenant (tenant : String) (events : List Row) (now : ℚ) :
    limiter.live (ofTenant tenant events) tenant now = limiter.live events tenant now := by
  simp only [RateLimiter.live,ofTenant,List.filter_filter]
  apply List.filter_congr
  intro row _
  by_cases own : row.tenant = tenant
  · simp [own]
  · simp [own]

theorem used_ofTenant (tenant : String) (events : List Row) (now : ℚ) :
    limiter.used (ofTenant tenant events) tenant now = limiter.used events tenant now := by
  rw [RateLimiter.used,live_ofTenant,RateLimiter.used]

private theorem settle_ofTenant (tenant : String) (events : List Row) (reservation : Reservation)
    (actualTokens : Int) :
    ofTenant tenant (settle events reservation actualTokens) =
      settle (ofTenant tenant events) reservation actualTokens := by
  simp only [ofTenant,settle,List.filter_map]
  congr 1
  apply List.filter_congr
  intro row _
  simp only [Function.comp_apply]
  split_ifs <;> rfl

private theorem release_ofTenant (tenant : String) (events : List Row) (reservation : Reservation) :
    ofTenant tenant (release events reservation) =
      release (ofTenant tenant events) reservation := by
  simp only [ofTenant,release,List.filter_filter]
  apply List.filter_congr
  intro row _
  rw [Bool.and_comm]

private theorem settle_absent (rows : List Row) (reservation : Reservation) (actualTokens : Int)
    (absent : ∀ row ∈ rows, row.requestId ≠ reservation.requestId) :
    settle rows reservation actualTokens = rows := by
  have same : ∀ row ∈ rows, (if row.requestId = reservation.requestId then
      {row with tokens := actualTokens, state := .settled} else row) = row :=
    fun row member => if_neg (absent row member)
  rw [settle,List.map_congr_left same,List.map_id']

private theorem release_absent (rows : List Row) (reservation : Reservation)
    (absent : ∀ row ∈ rows, row.requestId ≠ reservation.requestId) :
    release rows reservation = rows := by
  rw [release,List.filter_eq_self]
  intro row member
  simp [absent row member]

private theorem owners_later (operation : Operation) (rest : List Operation) (events : List Row) :
    owners rest events ⊆ owners (operation::rest) events := by
  intro owner member
  rcases List.mem_append.mp member with old | new
  · exact List.mem_append_left _ old
  · obtain ⟨other,present,pair⟩ := List.mem_filterMap.mp new
    exact List.mem_append_right _ (List.mem_filterMap.mpr ⟨other,
      List.mem_cons_of_mem _ present,pair⟩)

private theorem owners_kept (operation : Operation) (rest : List Operation) (events : List Row) :
    owners rest (remember limiter events operation).1 ⊆ owners (operation::rest) events := by
  have later := owners_later operation rest events
  cases operation with
  | checkAndReserve tenant requestId estimatedTokens now =>
    simp only [remember]
    split_ifs
    · exact later
    · intro owner member
      rw [owners,List.map_append,List.append_assoc,List.mem_append,List.mem_append] at member
      rcases member with old | own | new
      · exact List.mem_append_left _ old
      · have equal : owner = (requestId,tenant) := by simpa using own
        refine List.mem_append_right _ (List.mem_filterMap.mpr ⟨_,List.mem_cons_self,?_⟩)
        rw [equal]
        rfl
      · exact later (List.mem_append_right _ new)
  | settle reservation actualTokens =>
    intro owner member
    apply later
    rcases List.mem_append.mp member with old | new
    · refine List.mem_append_left _ ?_
      simp only [remember,settle,List.map_map] at old
      obtain ⟨row,present,pair⟩ := List.mem_map.mp old
      refine List.mem_map.mpr ⟨row,present,?_⟩
      rw [← pair]
      simp only [Function.comp_apply]
      split_ifs <;> rfl
    · exact List.mem_append_right _ new
  | release reservation =>
    intro owner member
    apply later
    rcases List.mem_append.mp member with old | new
    · exact List.mem_append_left _ (List.map_subset _ List.filter_sublist.subset old)
    · exact List.mem_append_right _ new
  | usage tenant now => exact later

theorem owned_next (operation : Operation) (rest : List Operation) (events : List Row)
    (owned : Owned (operation::rest) events) : Owned rest (remember limiter events operation).1 :=
  fun other member owner known => owned other (List.mem_cons_of_mem _ member) owner
    (owners_kept limiter operation rest events known)

theorem remember_unseen (tenant : String) (operation : Operation) (rest : List Operation)
    (events : List Row) (other : operation.tenant ≠ tenant)
    (owned : Owned (operation::rest) events) :
    ofTenant tenant (remember limiter events operation).1 = ofTenant tenant events := by
  have foreign (requestId : String) (target : operation.target = some requestId) :
      ∀ row ∈ ofTenant tenant events, row.requestId ≠ requestId := by
    intro row member equal
    obtain ⟨present,own⟩ := List.mem_filter.mp member
    have known : (row.requestId,row.tenant) ∈ owners (operation::rest) events :=
      List.mem_append_left _ (List.mem_map_of_mem present)
    have belongs := owned operation List.mem_cons_self _ known (equal ▸ target)
    exact other (belongs.symm.trans (by simpa using own))
  cases operation with
  | checkAndReserve owner requestId estimatedTokens now =>
    simp only [remember]
    split_ifs
    · rfl
    · have apart : owner ≠ tenant := other
      simp [ofTenant,apart]
  | settle reservation actualTokens =>
    rw [remember,settle_ofTenant,settle_absent _ _ _ (foreign _ rfl)]
  | release reservation =>
    rw [remember,release_ofTenant,release_absent _ _ (foreign _ rfl)]
  | usage owner now => rfl

end Execution

end QuilrMcp.Router.Eviction
