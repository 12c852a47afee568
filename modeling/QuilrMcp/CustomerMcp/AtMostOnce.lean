import QuilrMcp.CustomerMcp.Ledger
import QuilrMcp.Library.JsonReading
import QuilrMcp.Library.Rendering
import QuilrMcp.Library.Trace
import Mathlib.Tactic.Linarith

/-! Callers that share one ledger. A call reads the clock and runs its transaction later;
transactions are serialised and their statements do not fail. The log keeps every
transaction that has run, with what its `issue` gave when it was called and succeeded. -/
namespace QuilrMcp.CustomerMcp.AtMostOnce
open Library Library.Text Library.Trace Library.Sqlite

abbrev plainHook : List (Str × Json.Value) → Except Empty (List (Str × Json.Value)) :=
  fun pairs => .ok (Dict.ofPairs pairs)

/-- What `issue` may return: a dictionary that JSON can carry and the database can bind. -/
structure Payload (platform : Platform) where
  value : Json.Value
  sound : Json.Sound platform.format value
  settled : Json.Settled plainHook value
  encodable : (Encoding.encodeUtf8 (dumpResponse value)).isSome

theorem Payload.loadResponse {platform : Platform} (payload : Payload platform) :
    loadResponse platform (dumpResponse payload.value) = .ok payload.value := by
  have read := Json.loads_dumps platform.format plainHook ⟨true,false⟩ payload.value payload.sound
  rw [Json.rebuild_raw plainHook payload.value payload.settled] at read
  simp only [CustomerMcp.loadResponse,dumpResponse,read]

section Calls
variable (platform : Platform) (config : Config) (σ : Type)

structure Call where
  operation : Operation
  issue : σ → Except Failure (Payload platform) × σ

structure Entry where
  call : Call platform σ
  now : ℚ
  issued : Option (Payload platform)
  outcome : Except Failure (Json.Value × Bool)

structure Shared where
  clock : ℚ
  waiting : List (Call platform σ × ℚ)
  records : List Record
  world : σ
  log : List (Entry platform σ)

inductive Action
  | tick (elapsed : ℚ)
  | read (call : Call platform σ)
  | transact (index : Nat)

variable {platform σ}

def Shared.start (clock : ℚ) (world : σ) : Shared platform σ := ⟨clock,[],[],world,[]⟩

def Call.fingerprint (call : Call platform σ) : Except Failure Str :=
  CustomerMcp.fingerprint platform call.operation.customerId call.operation.amount
    call.operation.reason

/-- The call's `issue`, which also notes what it returned. -/
def Call.issueNoted (call : Call platform σ) (state : σ × Option (Payload platform)) :
    Except Failure Json.Value × (σ × Option (Payload platform)) :=
  match call.issue state.1 with
  | (.ok payload,world) => (.ok payload.value,(world,some payload))
  | (.error failure,world) => (.error failure,(world,state.2))

def Call.transact (call : Call platform σ) (now : ℚ) (records : List Record) (world : σ) :
    Except Failure (Json.Value × Bool) × Connection × (σ × Option (Payload platform)) :=
  runOnce platform config {} call.operation now call.issueNoted ⟨records,none⟩ (world,none)

/-- The clock never runs backwards; everything else may happen at any time and in any order. -/
def step (state : Shared platform σ) : Action platform σ → Option (Shared platform σ)
  | .tick elapsed => if 0 ≤ elapsed then some {state with clock := state.clock + elapsed} else none
  | .read call => some {state with waiting := state.waiting ++ [(call,state.clock)]}
  | .transact index => do
    let (call,now) ← state.waiting[index]?
    let (outcome,connection,world,issued) := call.transact config now state.records state.world
    some ⟨state.clock,state.waiting.eraseIdx index,connection.committed,world,
      state.log ++ [⟨call,now,issued,outcome⟩]⟩

/-- A transaction replays a stored refund, records one that it issued, or raises and leaves
the table as it was. -/
inductive Transacts (records : List Record) (entry : Entry platform σ) : List Record → Prop
  | raised (failed : ∃ failure, entry.outcome = .error failure)
      (unfound : ∀ key record, operationKey platform entry.call.operation = .ok key →
        (Encoding.encodeUtf8 key).isSome →
        stored (purge config entry.now records) key = some record →
        ∃ failure, loadResponse platform record.response = .error failure)
      (unprinted : ∀ payload, entry.issued = some payload →
        ∃ failure, entry.call.fingerprint = .error failure) :
      Transacts records entry records
  | replayed (key : Str) (record : Record) (value : Json.Value)
      (keyed : operationKey platform entry.call.operation = .ok key)
      (found : stored (purge config entry.now records) key = some record)
      (loaded : loadResponse platform record.response = .ok value)
      (unissued : entry.issued = none) (returned : entry.outcome = .ok (value,true)) :
      Transacts records entry (purge config entry.now records)
  | recorded (key print : Str) (payload : Payload platform)
      (keyed : operationKey platform entry.call.operation = .ok key)
      (bound : (Encoding.encodeUtf8 key).isSome)
      (absent : stored (purge config entry.now records) key = none)
      (printed : entry.call.fingerprint = .ok print)
      (issued : entry.issued = some payload)
      (returned : entry.outcome = .ok (payload.value,false)) :
      Transacts records entry (purge config entry.now records ++
        [⟨key,entry.call.operation.customerId,print,dumpResponse payload.value,entry.now⟩])

private theorem printed_customer (call : Call platform σ) (print : Str)
    (printed : call.fingerprint = .ok print) :
    (∀ code ∈ call.operation.customerId, isSurrogate code = false) ∧ ∀ code ∈ print,
      isSurrogate code = false := by
  simp only [Call.fingerprint,CustomerMcp.fingerprint] at printed
  cases encoded : encode
    (Json.dumps ⟨true,false⟩ (.dict [(lit "amount",.str (amountText call.operation.amount)),
      (lit "customer_id",.str call.operation.customerId),
        (lit "reason",.str call.operation.reason)])) with
  | error failure => simp [encoded,Except.map] at printed
  | ok bytes =>
    simp only [encoded,Except.map,Except.ok.injEq] at printed
    have clean := (Encoding.encodeUtf8_isSome _).mp (by rw [(encode_ok _ _).mp encoded]; rfl)
    constructor
    · have fields := (Json.dumps_dict_scalar _ rfl _).mp clean
      have written := (fields (lit "customer_id",.str call.operation.customerId) (by simp)).2
      rw [Json.dumps] at written
      exact (Json.writeString_scalar _ rfl _).mp written
    · intro code member
      have ascii := platform.hexText bytes code (printed ▸ member)
      simp only [isSurrogate,Bool.and_eq_false_iff,decide_eq_false_iff_not]
      omega

section Quiet
variable (call : Call platform σ) (now : ℚ) (records : List Record) (world : σ) (key : Str)
    (bytes : Bytes)
  (keyed : operationKey platform call.operation = .ok key) (bound : encode key = .ok bytes)
include keyed bound

private theorem transact_found (record : Record)
    (found : stored (purge config now records) key = some record) :
    call.transact config now records world =
      match loadResponse platform record.response with
      | .ok value => (.ok (value,true),⟨purge config now records,none⟩,(world,none))
      | .error failure => (.error failure,⟨records,none⟩,(world,none)) := by
  simp only [stored,purge] at found
  simp only [Call.transact,runOnce,keyed,immediate,Connection.beginImmediate,
    replayOrIssue,Connection.deleteExpired,Connection.selectResponse,bound,Connection.write,
    Connection.rows,Option.getD_some,found,Option.map_some]
  cases loadResponse platform record.response <;> rfl

private theorem transact_absent (absent : stored (purge config now records) key = none) :
    call.transact config now records world =
      match call.issue world with
      | (.error failure,world) => (.error failure,⟨records,none⟩,(world,none))
      | (.ok payload,world) =>
        match call.fingerprint with
        | .error failure => (.error failure,⟨records,none⟩,(world,some payload))
        | .ok print => (.ok (payload.value,false),⟨purge config now records ++
            [⟨key,call.operation.customerId,print,dumpResponse payload.value,now⟩],none⟩,
            (world,some payload)) := by
  have untaken : (purge config now records).any (·.operationKey = key) = false := by
    simpa [stored,List.find?_eq_none] using absent
  simp only [stored,purge] at absent
  simp only [purge] at untaken
  simp only [Call.transact,runOnce,keyed,immediate,Connection.beginImmediate,
    replayOrIssue,Connection.deleteExpired,Connection.selectResponse,bound,Connection.write,
    Connection.rows,Option.getD_some,absent,Option.map_none,Call.issueNoted]
  cases issued : call.issue world with
  | mk result world =>
    cases result with
    | error failure => rfl
    | ok payload =>
      simp only [recordOf]
      cases printed : call.fingerprint with
      | error failure =>
        simp only [Call.fingerprint] at printed
        simp [printed,Except.map,Connection.rollback]
      | ok print =>
        have clean := printed_customer call print printed
        have keyClean := (Encoding.encodeUtf8_isSome _).mp (by rw [(encode_ok _ _).mp bound]; rfl)
        have responseClean := (Encoding.encodeUtf8_isSome _).mp payload.encodable
        have encoded : ∃ bytes, encode (key ++ call.operation.customerId ++ print ++
          dumpResponse payload.value) =
            .ok bytes := by
          simp only [encode_ok]
          refine Option.isSome_iff_exists.mp ((Encoding.encodeUtf8_isSome _).mpr ?_)
          intro code member
          simp only [List.mem_append] at member
          rcases member with ((inKey | inCustomer) | inPrint) | inResponse
          · exact keyClean code inKey
          · exact clean.1 code inCustomer
          · exact clean.2 code inPrint
          · exact responseClean code inResponse
        obtain ⟨bytes,encoded⟩ := encoded
        simp only [Call.fingerprint] at printed
        simp only [printed,Except.map,Connection.insert,encoded,Connection.rows,
          Option.getD_some,untaken,
          Bool.false_eq_true,if_false,Connection.write,Connection.commit,purge]

end Quiet

/-- Every transaction is one of the three. -/
theorem transact_transacts (call : Call platform σ) (now : ℚ) (records : List Record) (world : σ) :
    Transacts config records
      ⟨call,now,(call.transact config now records world).2.2.2,
        (call.transact config now records world).1⟩
      (call.transact config now records world).2.1.committed := by
  cases keyed : operationKey platform call.operation with
  | error failure =>
    simp only [Call.transact,runOnce,keyed]
    exact .raised ⟨failure,rfl⟩ (by simp [keyed]) (by simp)
  | ok key =>
    cases bound : encode key with
    | error failure =>
      have unbound : (Encoding.encodeUtf8 key) = none := by
        unfold encode at bound
        split at bound
        · contradiction
        · assumption
      simp only [Call.transact,runOnce,keyed,immediate,Connection.beginImmediate,
        replayOrIssue,Connection.deleteExpired,Connection.selectResponse,bound,
        Connection.rollback,Connection.write]
      refine .raised ⟨failure,rfl⟩ ?_ (by simp)
      intro other record same encodable
      rw [keyed,Except.ok.injEq] at same
      subst other
      simp [unbound] at encodable
    | ok bytes =>
      have encodable : (Encoding.encodeUtf8 key).isSome := by rw [(encode_ok _ _).mp bound]; rfl
      cases found : stored (purge config now records) key with
      | some record =>
        rw [transact_found config call now records world key bytes keyed bound record found]
        cases loaded : loadResponse platform record.response with
        | ok value => exact .replayed key record value keyed found loaded rfl rfl
        | error failure =>
          refine .raised ⟨failure,rfl⟩ ?_ (by simp)
          intro other record' same _ found'
          rw [keyed,Except.ok.injEq] at same
          subst other
          obtain rfl := Option.some.inj (found.symm.trans found')
          exact ⟨failure,loaded⟩
      | none =>
        have unfound : ∀ other record, operationKey platform call.operation = .ok other →
            (Encoding.encodeUtf8 other).isSome →
            stored (purge config now records) other = some record →
            ∃ failure, loadResponse platform record.response = .error failure := by
          intro other record same _ present
          rw [keyed,Except.ok.injEq] at same
          subst other
          rw [found] at present
          contradiction
        rw [transact_absent config call now records world key bytes keyed bound found]
        cases issued : call.issue world with
        | mk result world =>
          cases result with
          | error failure => exact .raised ⟨failure,rfl⟩ unfound (by simp)
          | ok payload =>
            cases printed : call.fingerprint with
            | error failure => exact .raised ⟨failure,rfl⟩ unfound (fun _ _ => ⟨failure,printed⟩)
            | ok print => exact .recorded key print payload keyed encodable found printed rfl rfl

inductive Chain : List Record → List (Entry platform σ) → List Record → Prop
  | nil (records : List Record) : Chain records [] records
  | cons {records middle final : List Record} {entry : Entry platform σ}
      {log : List (Entry platform σ)}
      (first : Transacts config records entry middle) (later : Chain middle log final) :
      Chain records (entry::log) final

theorem chain_append {records middle final : List Record} {first second : List (Entry platform σ)}
    (before : Chain config records first middle) (after : Chain config middle second final) :
    Chain config records (first ++ second) final := by
  induction before with
  | nil => exact after
  | cons transacts _ ih => exact .cons transacts (ih after)

theorem chain_split {records final : List Record} (first second : List (Entry platform σ))
    (chain : Chain config records (first ++ second) final) :
    ∃ middle, Chain config records first middle ∧ Chain config middle second final := by
  induction first generalizing records with
  | nil => exact ⟨records,.nil records,chain⟩
  | cons entry first ih =>
    cases chain with
    | cons transacts later =>
      obtain ⟨middle,before,after⟩ := ih later
      exact ⟨middle,.cons transacts before,after⟩

private theorem step_chain (state : Shared platform σ) (action : Action platform σ)
    (next : Shared platform σ) (chain : Chain config [] state.log state.records)
    (stepped : step config state action = some next) :
    Chain config [] next.log next.records := by
  cases action with
  | tick elapsed =>
    simp only [step] at stepped
    split_ifs at stepped
    cases stepped
    exact chain
  | read call =>
    cases stepped
    exact chain
  | transact index =>
    simp only [step,Option.bind_eq_bind,Option.bind_eq_some_iff] at stepped
    obtain ⟨⟨call,now⟩,-,stepped⟩ := stepped
    cases stepped
    exact chain_append config chain
      (.cons (transact_transacts config call now state.records state.world) (.nil _))

theorem run_chain (clock : ℚ) (world : σ) (actions : List (Action platform σ))
    (final : Shared platform σ)
    (taken : run (step config) (Shared.start clock world) actions = some final) :
    Chain config [] final.log final.records :=
  run_invariant (step_chain config) (.nil []) taken

/-- The entry's refund is the record. -/
def Entry.Recorded (entry : Entry platform σ) (record : Record) : Prop :=
  ∃ payload print, entry.issued = some payload ∧ entry.call.fingerprint = .ok print ∧
    record.response = dumpResponse payload.value ∧ record.createdAt = entry.now

/-- The entry's transaction, with its purge, was committed. -/
def Entry.Commits (entry : Entry platform σ) : Prop := ∃ result, entry.outcome = .ok result

theorem transacts_origin {records final : List Record} {entry : Entry platform σ}
    (transacts : Transacts config records entry final) (record : Record) (member : record ∈ final) :
    record ∈ records ∨ entry.Recorded record := by
  cases transacts with
  | raised => exact Or.inl member
  | replayed => exact Or.inl (List.mem_of_mem_filter member)
  | recorded key print payload _ _ _ printed issued =>
    rcases List.mem_append.mp member with old | new
    · exact Or.inl (List.mem_of_mem_filter old)
    · rw [List.mem_singleton] at new
      exact Or.inr ⟨payload,print,issued,printed,by rw [new],by rw [new]⟩

theorem chain_origin {records final : List Record} {log : List (Entry platform σ)}
    (chain : Chain config records log final) (record : Record) (member : record ∈ final) :
    record ∈ records ∨ ∃ entry ∈ log, entry.Recorded record := by
  induction chain with
  | nil => exact Or.inl member
  | cons transacts _ ih =>
    rcases ih member with before | ⟨entry,later,recorded⟩
    · rcases transacts_origin config transacts record before with old | new
      · exact Or.inl old
      · exact Or.inr ⟨_,List.mem_cons_self,new⟩
    · exact Or.inr ⟨entry,List.mem_cons_of_mem _ later,recorded⟩

theorem transacts_keys {records final : List Record} {entry : Entry platform σ}
    (transacts : Transacts config records entry final)
    (distinct : (records.map Record.operationKey).Nodup) :
    (final.map Record.operationKey).Nodup := by
  have fewer : ((purge config entry.now records).map Record.operationKey).Nodup :=
    distinct.sublist (List.filter_sublist.map _)
  cases transacts with
  | raised => exact distinct
  | replayed => exact fewer
  | recorded key print payload _ _ absent =>
    rw [List.map_append]
    refine fewer.append (by simp) ?_
    intro other old new
    obtain ⟨record,member,rfl⟩ := List.mem_map.mp old
    simp only [stored,List.find?_eq_none,decide_eq_true_eq] at absent
    exact absent record member (by simpa using new)

theorem chain_keys {records final : List Record} {log : List (Entry platform σ)}
    (chain : Chain config records log final) (distinct : (records.map Record.operationKey).Nodup) :
    (final.map Record.operationKey).Nodup := by
  induction chain with
  | nil => exact distinct
  | cons transacts _ ih => exact ih (transacts_keys config transacts distinct)

private theorem mem_purge (now : ℚ) (records : List Record) (record : Record) :
    record ∈ purge config now records ↔ record ∈ records ∧
    now < record.createdAt + config.replayWindowSeconds := by
  simp [purge,sub_lt_iff_lt_add]

/-- A record stays as long as no committed transaction has it out of its window. -/
theorem chain_keeps {records final : List Record} {log : List (Entry platform σ)}
    (chain : Chain config records log final) (record : Record) (member : record ∈ records)
    (unexpired : ∀ entry ∈ log, entry.Commits →
      entry.now < record.createdAt + config.replayWindowSeconds) :
    record ∈ final := by
  induction chain with
  | nil => exact member
  | cons transacts _ ih =>
    refine ih ?_ (fun entry inside => unexpired entry (List.mem_cons_of_mem _ inside))
    have here := unexpired _ List.mem_cons_self
    cases transacts with
    | raised => exact member
    | replayed _ _ value _ _ _ _ returned =>
      exact (mem_purge config _ _ _).mpr ⟨member,here ⟨_,returned⟩⟩
    | recorded _ _ _ _ _ _ _ _ returned =>
      exact List.mem_append_left _ ((mem_purge config _ _ _).mpr ⟨member,here ⟨_,returned⟩⟩)

theorem transacts_purges {records final : List Record} {entry : Entry platform σ}
    (transacts : Transacts config records entry final) (committed : entry.Commits)
    (positive : 0 < config.replayWindowSeconds) (record : Record) (member : record ∈ final) :
    entry.now < record.createdAt + config.replayWindowSeconds := by
  cases transacts with
  | raised failed =>
    obtain ⟨failure,failed⟩ := failed
    obtain ⟨result,returned⟩ := committed
    rw [failed] at returned
    contradiction
  | replayed => exact ((mem_purge config _ _ _).mp member).2
  | recorded =>
    rcases List.mem_append.mp member with old | new
    · exact ((mem_purge config _ _ _).mp old).2
    · rw [List.mem_singleton] at new
      rw [new]
      linarith

/-- No two refunds of the log are the same: each has a new `refund_id`. -/
def Fresh (log : List (Entry platform σ)) : Prop :=
  log.Pairwise (fun entry other => ∀ payload payload', entry.issued = some payload →
    other.issued = some payload' → payload.value ≠ payload'.value)

/-- Two transactions of a log, the first before the later one, for the same operation within the window. -/
structure Repeats (log before between after : List (Entry platform σ))
    (first later : Entry platform σ) : Prop where
  order : log = before ++ first::(between ++ later::after)
  sameKey : ∃ key, operationKey platform first.call.operation = .ok key ∧
    operationKey platform later.call.operation = .ok key
  near : |first.now - later.now| < config.replayWindowSeconds

/-- The later call issues nothing and returns the first one's refund. -/
def Entry.Replays (later : Entry platform σ) (payload : Payload platform) : Prop :=
  later.issued = none ∧ later.outcome = .ok (payload.value,true)

/-- The first refund can be recorded, and no transaction that commits before the later one
has read a clock at which the record is expired. -/
def Undisturbed (first : Entry platform σ) (between : List (Entry platform σ)) : Prop :=
  (∃ print, first.call.fingerprint = .ok print) ∧
    ∀ entry ∈ between, entry.Commits → entry.now < first.now + config.replayWindowSeconds

private theorem stored_eq (records : List Record) (record : Record) (member : record ∈ records)
    (distinct : (records.map Record.operationKey).Nodup) : stored records record.operationKey =
      some record := by
  cases found : stored records record.operationKey with
  | none =>
    simp only [stored,List.find?_eq_none,decide_eq_true_eq] at found
    exact absurd rfl (found record member)
  | some other =>
    have same : other.operationKey = record.operationKey := by simpa using List.find?_some found
    rw [List.inj_on_of_nodup_map distinct (List.mem_of_find?_eq_some found) member same]

private theorem undisturbed_replays {records final : List Record}
    {between : List (Entry platform σ)} {first later : Entry platform σ} {key : Str}
    {payload : Payload platform} (keyed : operationKey platform first.call.operation = .ok key)
    (rekeyed : operationKey platform later.call.operation = .ok key)
    (near : |first.now - later.now| < config.replayWindowSeconds)
    (issued : first.issued = some payload) (distinct : (records.map Record.operationKey).Nodup)
    (undisturbed : Undisturbed config first between) {recorded middle : List Record}
    (opening : Transacts config records first recorded)
    (passing : Chain config recorded between middle)
    (closing : Transacts config middle later final) :
    later.Replays payload := by
  obtain ⟨⟨print,printed⟩,unexpired⟩ := undisturbed
  have keys := chain_keys config passing (transacts_keys config opening distinct)
  cases opening with
  | raised _ _ unprinted =>
    obtain ⟨failure,failed⟩ := unprinted payload issued
    rw [printed] at failed
    contradiction
  | replayed _ _ _ _ _ _ unissued =>
    rw [issued] at unissued
    contradiction
  | recorded key' print' payload' keyed' bound _ _ issued' =>
    obtain rfl := Except.ok.inj (keyed.symm.trans keyed')
    obtain rfl := Option.some.inj (issued.symm.trans issued')
    have kept := chain_keeps config passing _ (List.mem_append_right _ List.mem_cons_self) unexpired
    have live := (mem_purge config later.now middle _).mpr ⟨kept,by linarith [(abs_lt.mp near).1]⟩
    have found := stored_eq _ _ live (keys.sublist (List.filter_sublist.map _))
    cases closing with
    | raised _ unfound =>
      obtain ⟨failure,failed⟩ := unfound key _ rekeyed bound found
      simp [payload.loadResponse] at failed
    | replayed other record value keyed'' found' loaded unissued returned =>
      obtain rfl := Except.ok.inj (rekeyed.symm.trans keyed'')
      obtain rfl := Option.some.inj (found.symm.trans found')
      obtain rfl := Except.ok.inj (payload.loadResponse.symm.trans loaded)
      exact ⟨unissued,returned⟩
    | recorded other _ _ keyed'' _ absent =>
      obtain rfl := Except.ok.inj (rekeyed.symm.trans keyed'')
      rw [found] at absent
      contradiction

private theorem replays_undisturbed {records final : List Record}
    {before between : List (Entry platform σ)} {first later : Entry platform σ}
    {payload : Payload platform} (issued : first.issued = some payload)
    (positive : 0 < config.replayWindowSeconds)
    (unlike : ∀ entry ∈ before ++ between, ∀ payload', entry.issued = some payload' →
      payload'.value ≠ payload.value)
    {recorded middle : List Record} (beginning : Chain config [] before records)
    (opening : Transacts config records first recorded)
    (passing : Chain config recorded between middle) (closing : Transacts config middle later final)
    (replays : later.Replays payload) :
    Undisturbed config first between := by
  obtain ⟨unissued,outcome⟩ := replays
  cases closing with
  | raised failed =>
    obtain ⟨failure,failed⟩ := failed
    rw [outcome] at failed
    contradiction
  | recorded _ _ _ _ _ _ _ issued' =>
    rw [unissued] at issued'
    contradiction
  | replayed key record value _ found loaded _ returned =>
    obtain rfl : payload.value = value := by
      rw [outcome] at returned
      exact (Prod.mk.inj (Except.ok.inj returned)).1
    -- The record is nobody's refund but the first one's.
    have owner (entry : Entry platform σ) (owned : entry.Recorded record) : entry ∉ before ++
      between := by
      obtain ⟨payload',_,issued',_,response,_⟩ := owned
      intro member
      rw [response] at loaded
      exact unlike entry member payload' issued'
        (Except.ok.inj (payload'.loadResponse.symm.trans loaded))
    have member := List.mem_of_mem_filter (List.mem_of_find?_eq_some found)
    have whole := chain_append config beginning (.cons opening passing)
    have origin : first.Recorded record := by
      rcases chain_origin config whole record member with none | ⟨entry,inside,owned⟩
      · cases none
      · have outside := owner entry owned
        simp only [List.mem_append,List.mem_cons] at inside outside
        obtain rfl : entry = first := by tauto
        exact owned
    obtain ⟨_,print,_,printed,_,created⟩ := origin
    refine ⟨⟨print,printed⟩,?_⟩
    intro entry inside committed
    obtain ⟨early,late,rfl⟩ := List.append_of_mem inside
    obtain ⟨_,_,rest⟩ := chain_split config early (entry::late) passing
    cases rest with
    | cons transacts rest =>
      rw [← created]
      rcases chain_origin config rest record member with old | ⟨other,later,owned⟩
      · exact transacts_purges config transacts committed positive record old
      · exact absurd (by simp [later]) (owner other owned)

/-- Of two calls for one operation within the window, the later one replays the refund that the
first one issued exactly when no purge of a third caller came in between. -/
theorem replays_iff_undisturbed (clock : ℚ) (world : σ) (actions : List (Action platform σ))
    (final : Shared platform σ) (before between after : List (Entry platform σ))
    (first later : Entry platform σ) (payload : Payload platform)
    (reached : run (step config) (Shared.start clock world) actions = some final)
    (repeats : Repeats config final.log before between after first later)
    (issued : first.issued = some payload) (fresh : Fresh final.log) :
    later.Replays payload ↔ Undisturbed config first between := by
  obtain ⟨order,⟨key,keyed,rekeyed⟩,near⟩ := repeats
  have chain := run_chain config clock world actions final reached
  rw [order] at chain
  obtain ⟨records,beginning,rest⟩ := chain_split config before _ chain
  cases rest with
  | cons opening rest =>
    obtain ⟨middle,passing,rest⟩ := chain_split config between _ rest
    cases rest with
    | cons closing _ =>
      constructor
      · refine replays_undisturbed config issued ((abs_nonneg _).trans_lt near) ?_ beginning opening
          passing closing
        rw [order,Fresh,List.pairwise_append,List.pairwise_cons] at fresh
        intro entry member payload' issued'
        rcases List.mem_append.mp member with earlier | within
        · exact fresh.2.2 entry earlier first List.mem_cons_self payload' payload issued' issued
        · exact (fresh.2.1.1 entry (List.mem_append_left _ within) payload payload'
            issued issued').symm
      · intro undisturbed
        exact undisturbed_replays config keyed rekeyed near issued (chain_keys config beginning
          (by simp)) undisturbed
          opening passing closing

end Calls

def samplePayload (refundId : String) (ascii : ∀ code ∈ lit refundId, code < 128)
    (encodable : (Encoding.encodeUtf8
      (dumpResponse (.dict [(lit "refund_id",.str (lit refundId))]))).isSome) :
    Payload samplePlatform where
  value := .dict [(lit "refund_id",.str (lit refundId))]
  sound := ⟨by decide,fun code member => (ascii code member).trans (by decide),trivial⟩
  settled := ⟨rfl,trivial,trivial⟩
  encodable := encodable

def sampleCall (idempotencyKey : Str) (payload : Payload samplePlatform) :
    Call samplePlatform Unit :=
  ⟨⟨lit "CUST-00042",4999,lit "Duplicate charge",some idempotencyKey⟩,fun world =>
    (.ok payload,world)⟩

def sampleRecord (idempotencyKey : Str) (payload : Payload samplePlatform) (now : ℚ) : Record :=
  ⟨lit "key:CUST-00042:" ++ idempotencyKey,lit "CUST-00042",samplePlatform.sha256Hex [],
    dumpResponse payload.value,now⟩

def firstPayload := samplePayload "RFND-1" (by decide) (by decide)
def purgerPayload := samplePayload "RFND-2" (by decide) (by decide)
def slowPayload := samplePayload "RFND-3" (by decide) (by decide)

def firstCall := sampleCall (lit "retry") firstPayload
def purgerCall := sampleCall (lit "other") purgerPayload
def slowCall := sampleCall (lit "retry") slowPayload

private theorem sample_printed (idempotencyKey : Str) (payload : Payload samplePlatform) :
    (sampleCall idempotencyKey payload).fingerprint = .ok (samplePlatform.sha256Hex []) := by
  have encodable : (Encoding.encodeUtf8
    (Json.dumps ⟨true,false⟩ (.dict [(lit "amount",.str (amountText 4999)),
      (lit "customer_id",.str (lit "CUST-00042")),
        (lit "reason",.str (lit "Duplicate charge"))]))).isSome := by
    decide
  obtain ⟨bytes,encoded⟩ := Option.isSome_iff_exists.mp encodable
  simp only [Call.fingerprint,CustomerMcp.fingerprint,sampleCall,encode,encoded]
  rfl

private theorem step_issues (idempotencyKey : Str) (payload : Payload samplePlatform)
    (now : ℚ) (index : Nat) (state : Shared samplePlatform Unit)
    (waits : state.waiting[index]? = some (sampleCall idempotencyKey payload,now))
    (keyed : operationKey samplePlatform (sampleCall idempotencyKey payload).operation =
      .ok (lit "key:CUST-00042:" ++ idempotencyKey))
    (bound : (Encoding.encodeUtf8 (lit "key:CUST-00042:" ++ idempotencyKey)).isSome)
    (absent : stored (purge defaultConfig now state.records) (lit "key:CUST-00042:" ++
      idempotencyKey) = none) :
    step defaultConfig state (.transact index) = some ⟨state.clock,state.waiting.eraseIdx index,
      purge defaultConfig now state.records ++ [sampleRecord idempotencyKey payload now],(),
      state.log ++
        [⟨sampleCall idempotencyKey payload,now,some payload,.ok (payload.value,false)⟩]⟩ := by
  obtain ⟨bytes,encoded⟩ := Option.isSome_iff_exists.mp bound
  have ran := transact_absent defaultConfig (sampleCall idempotencyKey payload) now state.records
    state.world _ bytes
    keyed ((encode_ok _ _).mpr encoded) absent
  rw [sample_printed] at ran
  simp only [step,waits,Option.bind_eq_bind,Option.bind_some,ran]
  rfl

private theorem step_tick (state : Shared samplePlatform Unit) (elapsed clock : ℚ)
    (nonnegative : 0 ≤ elapsed) (sum : state.clock + elapsed = clock) :
    step defaultConfig state (.tick elapsed) = some {state with clock := clock} := by
  rw [step,if_pos nonnegative,sum]

private theorem step_replays (idempotencyKey : Str) (payload : Payload samplePlatform)
    (now : ℚ) (index : Nat) (state : Shared samplePlatform Unit) (first : Payload samplePlatform)
    (firstNow : ℚ) (waits : state.waiting[index]? = some (sampleCall idempotencyKey payload,now))
    (keyed : operationKey samplePlatform (sampleCall idempotencyKey payload).operation =
      .ok (lit "key:CUST-00042:" ++ idempotencyKey))
    (bound : (Encoding.encodeUtf8 (lit "key:CUST-00042:" ++ idempotencyKey)).isSome)
    (found : stored (purge defaultConfig now state.records) (lit "key:CUST-00042:" ++
      idempotencyKey) =
      some (sampleRecord idempotencyKey first firstNow)) :
    step defaultConfig state (.transact index) = some ⟨state.clock,state.waiting.eraseIdx index,
      purge defaultConfig now state.records,(),
      state.log ++ [⟨sampleCall idempotencyKey payload,now,none,.ok (first.value,true)⟩]⟩ := by
  obtain ⟨bytes,encoded⟩ := Option.isSome_iff_exists.mp bound
  have ran := transact_found defaultConfig (sampleCall idempotencyKey payload) now state.records
    state.world _ bytes
    keyed ((encode_ok _ _).mpr encoded) _ found
  simp only [sampleRecord,first.loadResponse] at ran
  simp only [step,waits,Option.bind_eq_bind,Option.bind_some,ran]

private theorem replayed_run : ∃ records, run (step defaultConfig) (Shared.start 0 ())
    [.read slowCall,.tick 1,.read firstCall,.transact 1,.transact 0] = some ⟨1,[],records,(),
      [⟨firstCall,1,some firstPayload,.ok (firstPayload.value,false)⟩,
        ⟨slowCall,0,none,.ok (firstPayload.value,true)⟩]⟩ :=
  ⟨_,run_cons.mpr ⟨_,rfl,run_cons.mpr ⟨_,step_tick _ 1 1 (by decide) (by norm_num [Shared.start]),
    run_cons.mpr ⟨_,rfl,run_cons.mpr ⟨_,step_issues (lit "retry") firstPayload 1 1 _ rfl rfl
      (by decide) rfl,
    run_cons.mpr ⟨_,step_replays (lit "retry") slowPayload 0 0 _ firstPayload 1 rfl rfl (by decide)
      (by decide +kernel),rfl⟩⟩⟩⟩⟩⟩

private theorem purged_run : ∃ records, run (step defaultConfig) (Shared.start 0 ())
    [.read slowCall,.tick 1,.read firstCall,.transact 1,.tick 86400,.read purgerCall,.transact 1,
      .transact 0] =
    some ⟨86401,[],records,(),
      [⟨firstCall,1,some firstPayload,.ok (firstPayload.value,false)⟩,
        ⟨purgerCall,86401,some purgerPayload,.ok (purgerPayload.value,false)⟩,
        ⟨slowCall,0,some slowPayload,.ok (slowPayload.value,false)⟩]⟩ :=
  ⟨_,run_cons.mpr ⟨_,rfl,run_cons.mpr ⟨_,step_tick _ 1 1 (by decide) (by norm_num [Shared.start]),
    run_cons.mpr ⟨_,rfl,run_cons.mpr ⟨_,step_issues (lit "retry") firstPayload 1 1 _ rfl rfl
      (by decide) rfl,
    run_cons.mpr ⟨_,step_tick _ 86400 86401 (by decide) (by norm_num),
    run_cons.mpr ⟨_,rfl,
      run_cons.mpr ⟨_,step_issues (lit "other") purgerPayload 86401 1 _ rfl rfl (by decide)
      (by decide +kernel),
    run_cons.mpr ⟨_,step_issues (lit "retry") slowPayload 0 0 _ rfl rfl (by decide)
      (by decide +kernel),
      rfl⟩⟩⟩⟩⟩⟩⟩⟩⟩

private theorem samplePayload_value
    (refundId other : String) (ascii asciiOther encodable encodableOther)
    (differ : lit refundId ≠ lit other) :
    (samplePayload refundId ascii encodable).value ≠
    (samplePayload other asciiOther encodableOther).value := by
  intro same
  simp only [samplePayload,Json.Value.dict.injEq,List.cons.injEq,Prod.mk.injEq,
    Json.Value.str.injEq] at same
  exact differ same.1.2

theorem replays_retry :
    (⟨slowCall,0,none,.ok (firstPayload.value,true)⟩ : Entry samplePlatform Unit).Replays
      firstPayload ↔
      Undisturbed defaultConfig ⟨firstCall,1,some firstPayload,
        .ok (firstPayload.value,false)⟩ [] := by
  obtain ⟨records,taken⟩ := replayed_run
  exact replays_iff_undisturbed defaultConfig 0 () _ _ [] [] [] _ _ firstPayload taken
    ⟨rfl,⟨_,rfl,rfl⟩,by norm_num [defaultConfig]⟩ rfl (by simp [Fresh])

private theorem purged_fresh : Fresh [
    (⟨firstCall,1,some firstPayload,.ok (firstPayload.value,false)⟩ : Entry samplePlatform Unit),
    ⟨purgerCall,86401,some purgerPayload,.ok (purgerPayload.value,false)⟩,
    ⟨slowCall,0,some slowPayload,.ok (slowPayload.value,false)⟩] := by
  simp only [Fresh,List.pairwise_cons,List.mem_cons,List.not_mem_nil,or_false,
    forall_eq_or_imp,forall_eq,
    Option.some.injEq,false_imp_iff,implies_true,List.Pairwise.nil,and_true]
  refine ⟨⟨?_,?_⟩,?_⟩
  all_goals
    rintro _ _ rfl rfl
    exact samplePayload_value _ _ _ _ _ _ (by decide)

/-- The slow caller reads second 0, the first one issues at second 1, and a third caller purges
that record at second 86401, before the slow caller's transaction issues the refund again. -/
theorem third_caller_purges :
    ¬ ∀ (platform : Platform) (config : Config) (σ : Type) (clock : ℚ) (world : σ)
      (actions : List (Action platform σ)) (final : Shared platform σ)
      (before between after : List (Entry platform σ))
      (first later : Entry platform σ) (payload : Payload platform),
      run (step config) (Shared.start clock world) actions = some final →
      Repeats config final.log before between after first later → first.issued = some payload →
      Fresh final.log → later.Replays payload := by
  intro replays
  obtain ⟨records,taken⟩ := purged_run
  have again := replays samplePlatform defaultConfig Unit 0 () _ _ [] [_] [] _ _ firstPayload taken
    ⟨rfl,⟨_,rfl,rfl⟩,by norm_num [defaultConfig]⟩ rfl purged_fresh
  cases again.1

end QuilrMcp.CustomerMcp.AtMostOnce
