import QuilrMcp.Library.Dict
import QuilrMcp.Library.Encoding
import QuilrMcp.Library.Json
import QuilrMcp.Library.Sqlite
import Mathlib.Data.Rat.Init
import Mathlib.Algebra.Order.Ring.Rat

/-! The replay ledger. One connection holds the committed table and, inside a transaction,
the table as it stands so far. Every statement may fail; `Endings` says which do. Amounts
are whole cents and clock readings exact seconds. -/
namespace QuilrMcp.CustomerMcp
open Library Library.Text Library.Sqlite

inductive Failure
  | domainError (code message : Str) (details : List (Str × Json.Value))
  | unicodeEncodeError
  | databaseError
  | valueError
  | typeError

/-- SHA-256 as `hexdigest` writes it, and the language's float format. -/
structure Platform where
  sha256Hex : Bytes → Str
  hexText : ∀ bytes, ∀ code ∈ sha256Hex bytes, code < 128
  format : Json.FloatFormat

/-- Floats as they were written, and the digest of the refund of 49.99 to `CUST-00042` for a
`Duplicate charge`. -/
def samplePlatform : Platform where
  sha256Hex _ := lit "a2961fd0ca22ab3f978d75f4b064c8a0e01b46d0a78498e1bdb0be8ed969f0ad"
  hexText := by intro _; decide
  format := .verbatim

/-- `f"{amount:.2f}"` -/
def amountText (cents : Int) : Str :=
  (if cents < 0 then [45] else []) ++ Json.natText (cents.natAbs / 100) ++
    [46,48 + cents.natAbs / 10 % 10,48 + cents.natAbs % 10]

def encode (text : Str) : Except Failure Bytes :=
  match Encoding.encodeUtf8 text with
  | some bytes => .ok bytes
  | none => .error .unicodeEncodeError

theorem encode_ok (text : Str) (bytes : Bytes) :
    encode text = .ok bytes ↔ Encoding.encodeUtf8 text = some bytes := by
  unfold encode
  cases Encoding.encodeUtf8 text <;> simp

def fingerprint (platform : Platform) (customerId : Str) (amount : Int) (reason : Str) :
    Except Failure Str :=
  let material := Json.dumps ⟨true,false⟩ (.dict [(lit "amount",.str (amountText amount)),
    (lit "customer_id",.str customerId),(lit "reason",.str reason)])
  (encode material).map platform.sha256Hex

structure Config where
  replayWindowSeconds : ℚ

def defaultConfig : Config := ⟨86400⟩

/-- A row of `refund_operations`. -/
structure Record where
  operationKey : Str
  customerId : Str
  fingerprint : Str
  response : Str
  createdAt : ℚ
  deriving DecidableEq

def purge (config : Config) (now : ℚ) (records : List Record) : List Record :=
  records.filter (fun record => ¬ record.createdAt ≤ now - config.replayWindowSeconds)

def stored (records : List Record) (key : Str) : Option Record :=
  records.find? (·.operationKey = key)

abbrev Connection := Sqlite.Connection (List Record)

structure Endings where
  begin : Ending := .done
  delete : Ending := .done
  select : Ending := .done
  insert : Ending := .done
  commit : Ending := .done
  rollback : Ending := .done

namespace Connection

def deleteExpired (connection : Connection) (ending : Ending) (horizon : ℚ) :
    Except Failure Unit × Connection :=
  match ending with
  | .done => (.ok (),connection.write (connection.rows.filter (fun record =>
      ¬ record.createdAt ≤ horizon)))
  | _ => (.error .databaseError,connection.abandoned ending)

def selectResponse (connection : Connection) (ending : Ending) (key : Str) :
    Except Failure (Option Str) × Connection :=
  match encode key with
  | .error failure => (.error failure,connection)
  | .ok _ =>
    match ending with
    | .done => (.ok ((connection.rows.find? (·.operationKey = key)).map Record.response),connection)
    | _ => (.error .databaseError,connection.abandoned ending)

def insert (connection : Connection) (ending : Ending) (record : Record) :
    Except Failure Unit × Connection :=
  match encode (record.operationKey ++ record.customerId ++ record.fingerprint ++
    record.response) with
  | .error failure => (.error failure,connection)
  | .ok _ =>
    match ending with
    | .done =>
      -- The primary key.
      if connection.rows.any (·.operationKey = record.operationKey) then
        (.error .databaseError,connection)
      else (.ok (),connection.write (connection.rows ++ [record]))
    | _ => (.error .databaseError,connection.abandoned ending)

end Connection

section RunOnce
variable {σ α : Type}

/-- `_immediate`: commit what the body did, or roll it back when the body raises. -/
def immediate (endings : Endings) (body : Connection → σ → Except Failure α × Connection × σ)
    (connection : Connection) (state : σ) : Except Failure α × Connection × σ :=
  match connection.beginImmediate .databaseError endings.begin with
  | (.error failure,connection) => (.error failure,connection,state)
  | (.ok _,connection) =>
    match body connection state with
    | (.error failure,connection,state) =>
      match connection.rollback .databaseError endings.rollback with
      | (.error rollbackFailure,connection) => (.error rollbackFailure,connection,state)
      | (.ok _,connection) => (.error failure,connection,state)
    | (.ok value,connection,state) =>
      match connection.commit .databaseError endings.commit with
      | (.error failure,connection) => (.error failure,connection,state)
      | (.ok _,connection) => (.ok value,connection,state)

/-- The arguments of `run_once` besides `issue`. -/
structure Operation where
  customerId : Str
  amount : Int
  reason : Str
  idempotencyKey : Option Str

def operationKey (platform : Platform) (operation : Operation) : Except Failure Str :=
  let auto := (fingerprint platform operation.customerId operation.amount operation.reason).map
    (lit "auto:" ++ ·)
  match operation.idempotencyKey with
  | none => auto
  | some supplied =>
    -- An empty key is no key.
    if supplied.isEmpty then auto else .ok (lit "key:" ++ operation.customerId ++
      lit ":" ++ supplied)

/-- `json.loads` of a stored response. -/
def loadResponse (platform : Platform) (response : Str) : Except Failure Json.Value :=
  match Json.loads (ε := Empty) platform.format (fun pairs =>
    .ok (Dict.ofPairs pairs)) response with
  | .ok value => .ok value
  | .error _ => .error .valueError

def dumpResponse (payload : Json.Value) : Str := Json.dumps ⟨true,false⟩ payload

def recordOf (platform : Platform) (operation : Operation) (key : Str)
    (payload : Json.Value) (now : ℚ) :
    Except Failure Record :=
  (fingerprint platform operation.customerId operation.amount operation.reason).map (fun print =>
    ⟨key,operation.customerId,print,dumpResponse payload,now⟩)

/-- The body of the transaction, once the key and the clock have been read. -/
def replayOrIssue (platform : Platform) (config : Config) (endings : Endings)
    (operation : Operation) (key : Str) (now : ℚ) (issue : σ → Except Failure Json.Value × σ)
    (connection : Connection) (state : σ) :
    Except Failure (Json.Value × Bool) × Connection × σ :=
  match connection.deleteExpired endings.delete (now - config.replayWindowSeconds) with
  | (.error failure,connection) => (.error failure,connection,state)
  | (.ok _,connection) =>
    match connection.selectResponse endings.select key with
    | (.error failure,connection) => (.error failure,connection,state)
    | (.ok (some response),connection) =>
      ((loadResponse platform response).map (·,true),connection,state)
    | (.ok none,connection) =>
      match issue state with
      | (.error failure,state) => (.error failure,connection,state)
      | (.ok payload,state) =>
        match recordOf platform operation key payload now with
        | .error failure => (.error failure,connection,state)
        | .ok record =>
          match connection.insert endings.insert record with
          | (.error failure,connection) => (.error failure,connection,state)
          | (.ok _,connection) => (.ok (payload,false),connection,state)

/-- `now` is the clock reading, which is taken before the transaction. -/
def runOnce (platform : Platform) (config : Config) (endings : Endings)
    (operation : Operation) (now : ℚ) (issue : σ → Except Failure Json.Value × σ)
    (connection : Connection) (state : σ) :
    Except Failure (Json.Value × Bool) × Connection × σ :=
  match operationKey platform operation with
  | .error failure => (.error failure,connection,state)
  | .ok key =>
    immediate endings (replayOrIssue platform config endings operation key now issue)
      connection state

/-- The call gets through BEGIN, the purge and the lookup, and finds nothing to replay. -/
structure ReachesIssue (platform : Platform) (config : Config) (endings : Endings)
    (operation : Operation) (now : ℚ) (connection : Connection) (key : Str) : Prop where
  keyed : operationKey platform operation = .ok key
  idle : connection.pending = none
  begun : endings.begin = .done
  deleted : endings.delete = .done
  bound : (Encoding.encodeUtf8 key).isSome
  selected : endings.select = .done
  absent : stored (purge config now connection.committed) key = none

/-- The transaction leaves the memory as its body left it: nothing there is rolled back. -/
theorem immediate_state (endings : Endings)
    (body : Connection → σ → Except Failure α × Connection × σ)
    (connection : Connection) (state : σ) :
    (immediate endings body connection state).2.2 =
      if connection.pending = none ∧ endings.begin = .done then
        (body ⟨connection.committed,some connection.committed⟩ state).2.2 else state := by
  unfold immediate Connection.beginImmediate
  cases idle : connection.pending with
  | some rows => simp
  | none =>
    cases begun : endings.begin with
    | raised => simp
    | aborted => simp
    | done =>
      simp only [and_self,if_true]
      split
      · rename_i failure after raised
        split <;> simp_all
      · rename_i value after returned
        split <;> simp_all

theorem replayOrIssue_state (platform : Platform) (config : Config) (endings : Endings)
    (operation : Operation) (key : Str) (now : ℚ) (issue : σ → Except Failure Json.Value × σ)
    (records : List Record) (state : σ) :
    (replayOrIssue platform config endings operation key now issue ⟨records,
      some records⟩ state).2.2 =
      if endings.delete = .done ∧ (Encoding.encodeUtf8 key).isSome ∧ endings.select = .done ∧
        stored (purge config now records) key = none then (issue state).2 else state := by
  simp only [replayOrIssue,Connection.deleteExpired]
  cases deleted : endings.delete with
  | raised => simp
  | aborted => simp
  | done =>
    simp only [Connection.write,Connection.selectResponse,Connection.rows,Option.getD_some,true_and]
    cases encoded : Encoding.encodeUtf8 key with
    | none => simp [encode,encoded]
    | some bytes =>
      simp only [encode,encoded,Option.isSome_some,true_and]
      cases selected : endings.select with
      | raised => simp
      | aborted => simp
      | done =>
        simp only [true_and,stored,purge]
        cases found : (records.filter (fun record =>
          ¬ record.createdAt ≤ now - config.replayWindowSeconds)).find?
            (·.operationKey = key) with
        | some record => simp
        | none =>
          simp only [Option.map_none,if_true]
          cases issued : issue state with
          | mk result after =>
            cases result with
            | error failure => rfl
            | ok payload =>
              -- Whatever happens from here on, the memory is as `issue` left it.
              simp only
              split
              · rfl
              · split <;> rfl

/-- Only a call that reaches `issue` changes the memory, and then as `issue` does. -/
theorem runOnce_state (platform : Platform) (config : Config) (endings : Endings)
    (operation : Operation) (now : ℚ) (issue : σ → Except Failure Json.Value × σ)
    (connection : Connection) (state : σ) :
    ((∃ key, ReachesIssue platform config endings operation now connection key) ∧
      (runOnce platform config endings operation now issue connection state).2.2 =
      (issue state).2) ∨
    ((¬ ∃ key, ReachesIssue platform config endings operation now connection key) ∧
      (runOnce platform config endings operation now issue connection state).2.2 = state) := by
  cases keyed : operationKey platform operation with
  | error failure =>
    refine Or.inr ⟨?_,by simp [runOnce,keyed]⟩
    rintro ⟨key,reaches⟩
    rw [reaches.keyed] at keyed
    contradiction
  | ok key =>
    simp only [runOnce,keyed,immediate_state,replayOrIssue_state]
    by_cases open_ : connection.pending = none ∧ endings.begin = .done
    · rw [if_pos open_]
      by_cases through : endings.delete = .done ∧ (Encoding.encodeUtf8 key).isSome ∧
        endings.select = .done ∧
          stored (purge config now connection.committed) key = none
      · rw [if_pos through]
        obtain ⟨deleted,bound,selected,absent⟩ := through
        exact Or.inl ⟨⟨key,keyed,open_.1,open_.2,deleted,bound,selected,absent⟩,rfl⟩
      · rw [if_neg through]
        refine Or.inr ⟨?_,rfl⟩
        rintro ⟨other,reaches⟩
        obtain rfl := Except.ok.inj (keyed.symm.trans reaches.keyed)
        exact through ⟨reaches.deleted,reaches.bound,reaches.selected,reaches.absent⟩
    · rw [if_neg open_]
      refine Or.inr ⟨?_,rfl⟩
      rintro ⟨other,reaches⟩
      exact open_ ⟨reaches.idle,reaches.begun⟩

/-- The refund's record can be built and bound, and INSERT and COMMIT succeed. -/
structure Records (platform : Platform) (endings : Endings) (operation : Operation)
    (payload : Json.Value) : Prop where
  bound : ∃ key print, operationKey platform operation = .ok key ∧
    fingerprint platform operation.customerId operation.amount operation.reason = .ok print ∧
    (Encoding.encodeUtf8 (key ++ operation.customerId ++ print ++ dumpResponse payload)).isSome
  inserted : endings.insert = .done
  committed : endings.commit = .done

private theorem immediate_raises (endings : Endings)
    (body : Connection → σ → Except Failure α × Connection × σ) (connection after : Connection)
    (state final : σ) (failure : Failure) (idle : connection.pending = none)
    (begun : endings.begin = .done)
    (raised : body ⟨connection.committed,some connection.committed⟩ state =
      (.error failure,after,final)) :
    ∃ other, (immediate endings body connection state).1 = .error other := by
  simp only [immediate,Connection.beginImmediate,idle,begun,raised]
  split
  · exact ⟨_,rfl⟩
  · exact ⟨_,rfl⟩

private theorem immediate_returns (endings : Endings)
    (body : Connection → σ → Except Failure α × Connection × σ) (connection : Connection)
    (state final : σ) (value : α) (committed rows : List Record) (idle : connection.pending = none)
    (begun : endings.begin = .done)
    (returned : body ⟨connection.committed,some connection.committed⟩ state =
      (.ok value,⟨committed,some rows⟩,final)) :
    (immediate endings body connection state).1 =
      if endings.commit = .done then .ok value else .error .databaseError := by
  simp only [immediate,Connection.beginImmediate,idle,begun,returned,
    Connection.commit]
  cases endings.commit <;> rfl

private theorem replayOrIssue_issued (platform : Platform) (config : Config) (endings : Endings)
    (operation : Operation) (key : Str) (now : ℚ) (issue : σ → Except Failure Json.Value × σ)
    (records : List Record) (state after : σ) (payload : Json.Value)
    (deleted : endings.delete = .done) (bound : (Encoding.encodeUtf8 key).isSome)
    (selected : endings.select = .done) (absent : stored (purge config now records) key = none)
    (issued : issue state = (.ok payload,after)) :
    ((∃ print, fingerprint platform operation.customerId operation.amount operation.reason =
      .ok print ∧
        (Encoding.encodeUtf8 (key ++ operation.customerId ++ print ++
          dumpResponse payload)).isSome) ∧
      endings.insert = .done ∧ ∃ rows,
      replayOrIssue platform config endings operation key now issue ⟨records,some records⟩ state =
        (.ok (payload,false),⟨records,some rows⟩,after)) ∨
    (¬ ((∃ print, fingerprint platform operation.customerId operation.amount operation.reason =
      .ok print ∧
        (Encoding.encodeUtf8 (key ++ operation.customerId ++ print ++
          dumpResponse payload)).isSome) ∧
      endings.insert = .done) ∧ ∃ failure connection,
      replayOrIssue platform config endings operation key now issue ⟨records,some records⟩ state =
        (.error failure,connection,after)) := by
  obtain ⟨bytes,encoded⟩ := Option.isSome_iff_exists.mp bound
  have untaken : (purge config now records).any (·.operationKey = key) = false := by
    simpa [stored,List.find?_eq_none] using absent
  simp only [stored,purge] at absent
  simp only [purge] at untaken
  simp only [replayOrIssue,deleted,selected,Connection.deleteExpired,Connection.selectResponse,
    (encode_ok _ _).mpr encoded,Connection.write,Connection.rows,Option.getD_some,absent,
    Option.map_none,issued,recordOf]
  cases printed : fingerprint platform operation.customerId operation.amount operation.reason with
  | error failure => exact Or.inr ⟨by simp,⟨_,_,rfl⟩⟩
  | ok print =>
    simp only [Except.map,Connection.insert,Except.ok.injEq,exists_eq_left']
    cases texts : Encoding.encodeUtf8 (key ++ operation.customerId ++ print ++
      dumpResponse payload) with
    | none =>
      simp only [encode,texts]
      exact Or.inr ⟨by simp,⟨_,_,rfl⟩⟩
    | some _ =>
      simp only [(encode_ok _ _).mpr texts,Option.isSome_some,true_and]
      cases inserted : endings.insert with
      | done =>
        simp only [Connection.rows,Option.getD_some,untaken,Bool.false_eq_true,if_false,
          Connection.write]
        exact Or.inl ⟨trivial,_,rfl⟩
      | raised => exact Or.inr ⟨by simp,⟨_,_,rfl⟩⟩
      | aborted => exact Or.inr ⟨by simp,⟨_,_,rfl⟩⟩

/-- Once `issue` has returned, the call returns its payload when the record can be kept and raises otherwise. -/
theorem runOnce_issued (platform : Platform) (config : Config) (endings : Endings)
    (operation : Operation) (now : ℚ) (issue : σ → Except Failure Json.Value × σ)
    (connection : Connection) (state after : σ) (key : Str) (payload : Json.Value)
    (reaches : ReachesIssue platform config endings operation now connection key)
    (issued : issue state = (.ok payload,after)) :
    (Records platform endings operation payload ∧
      (runOnce platform config endings operation now issue connection state).1 =
        .ok (payload,false)) ∨
    (¬ Records platform endings operation payload ∧
      ∃ failure, (runOnce platform config endings operation now issue connection state).1 =
        .error failure) := by
  obtain ⟨keyed,idle,begun,deleted,bound,selected,absent⟩ := reaches
  simp only [runOnce,keyed]
  rcases replayOrIssue_issued platform config endings operation key now issue connection.committed
    state after payload
      deleted bound selected absent issued with ⟨⟨print,printed,texts⟩,inserted,rows,
        body⟩ | ⟨unrecorded,failure,_,body⟩
  · rw [immediate_returns endings _ connection state after _ _ _ idle begun body]
    by_cases finished : endings.commit = .done
    · exact Or.inl ⟨⟨⟨key,print,keyed,printed,texts⟩,inserted,finished⟩,by rw [if_pos finished]⟩
    · exact Or.inr ⟨fun records => finished records.committed,_,by rw [if_neg finished]⟩
  · refine Or.inr ⟨?_,immediate_raises endings _ connection _ state after failure idle begun body⟩
    rintro ⟨⟨other,print,keyed',printed,texts⟩,inserted,_⟩
    obtain rfl := Except.ok.inj (keyed.symm.trans keyed')
    exact unrecorded ⟨⟨print,printed,texts⟩,inserted⟩

/-- What a transaction returns, its body returned on the table as it was. -/
theorem immediate_value (endings : Endings)
    (body : Connection → σ → Except Failure α × Connection × σ) (connection : Connection)
    (state : σ) (value : α) (returned : (immediate endings body connection state).1 = .ok value) :
    connection.pending = none ∧ endings.begin = .done ∧
      (body ⟨connection.committed,some connection.committed⟩ state).1 = .ok value := by
  simp only [immediate,Connection.beginImmediate] at returned
  cases idle : connection.pending with
  | some rows => simp [idle] at returned
  | none =>
    cases begun : endings.begin with
    | raised => simp [idle,begun] at returned
    | aborted => simp [idle,begun] at returned
    | done =>
      refine ⟨rfl,rfl,?_⟩
      simp only [idle,begun] at returned
      split at returned
      · split at returned <;> contradiction
      · rename_i result after final ended
        rw [ended]
        split at returned
        · contradiction
        · exact returned

/-- A payload that is new is what `issue` returned, once nothing was found to replay. -/
theorem replayOrIssue_new (platform : Platform) (config : Config) (endings : Endings)
    (operation : Operation) (key : Str) (now : ℚ) (issue : σ → Except Failure Json.Value × σ)
    (records : List Record) (state : σ) (payload : Json.Value)
    (returned : (replayOrIssue platform config endings operation key now issue ⟨records,
      some records⟩ state).1 = .ok (payload,false)) :
    (endings.delete = .done ∧ (Encoding.encodeUtf8 key).isSome ∧ endings.select = .done ∧
      stored (purge config now records) key = none) ∧ (issue state).1 = .ok payload := by
  simp only [replayOrIssue,Connection.deleteExpired] at returned
  cases deleted : endings.delete with
  | raised => simp [deleted] at returned
  | aborted => simp [deleted] at returned
  | done =>
    simp only [deleted,Connection.write,Connection.selectResponse,Connection.rows,
      Option.getD_some] at returned
    cases encoded : Encoding.encodeUtf8 key with
    | none => simp [encode,encoded] at returned
    | some bytes =>
      simp only [encode,encoded] at returned
      cases selected : endings.select with
      | raised => simp [selected] at returned
      | aborted => simp [selected] at returned
      | done =>
        simp only [selected] at returned
        cases found : stored (purge config now records) key with
        | some record =>
          simp only [stored,purge] at found
          simp only [found,Option.map_some] at returned
          cases loaded : loadResponse platform record.response <;>
            simp [loaded,Except.map] at returned
        | none =>
          refine ⟨⟨rfl,rfl,rfl,rfl⟩,?_⟩
          simp only [stored,purge] at found
          simp only [found,Option.map_none] at returned
          cases issued : issue state with
          | mk result after =>
            cases result with
            | error failure => simp [issued] at returned
            | ok value =>
              simp only [issued] at returned
              split at returned
              · contradiction
              · split at returned
                · contradiction
                · cases returned
                  rfl

theorem runOnce_new (platform : Platform) (config : Config) (endings : Endings)
    (operation : Operation) (now : ℚ) (issue : σ → Except Failure Json.Value × σ)
    (connection : Connection) (state : σ) (payload : Json.Value)
    (returned : (runOnce platform config endings operation now issue connection state).1 =
      .ok (payload,false)) :
    (∃ key, ReachesIssue platform config endings operation now connection key) ∧
    (issue state).1 = .ok payload := by
  rw [runOnce] at returned
  cases keyed : operationKey platform operation with
  | error failure => simp [keyed] at returned
  | ok key =>
    simp only [keyed] at returned
    obtain ⟨idle,begun,body⟩ := immediate_value endings _ connection state _ returned
    obtain ⟨⟨deleted,bound,selected,absent⟩,issued⟩ := replayOrIssue_new _ _ _ _ _ _ _ _ _ _ body
    exact ⟨⟨key,keyed,idle,begun,deleted,bound,selected,absent⟩,issued⟩

private theorem insert_open (rows committed : List Record) (record : Record) :
    (Connection.insert ⟨committed,some rows⟩ .done record).2.pending.isSome := by
  rw [Connection.insert]
  split
  · rfl
  · split_ifs <;> rfl

private theorem replayOrIssue_open (platform : Platform) (config : Config) (operation : Operation)
    (key : Str) (now : ℚ) (issue : σ → Except Failure Json.Value × σ)
    (records : List Record) (state : σ) :
    (replayOrIssue platform config {} operation key now issue ⟨records,
      some records⟩ state).2.1.pending.isSome := by
  simp only [replayOrIssue,Connection.deleteExpired,Connection.write,Connection.selectResponse,
    Connection.rows,Option.getD_some]
  cases encode key with
  | error failure => rfl
  | ok bytes =>
    generalize List.find? _ _ = found
    cases found with
    | some record => rfl
    | none =>
      simp only [Option.map_none]
      cases issue state with
      | mk result after =>
        cases result with
        | error failure => rfl
        | ok payload =>
          cases recorded : recordOf platform operation key payload now with
          | error failure =>
            simp only [recorded]
            rfl
          | ok record =>
            simp only [recorded]
            have opened :=
              insert_open (List.filter (fun record =>
                ¬ record.createdAt ≤ now - config.replayWindowSeconds) records)
              records record
            split
            · rename_i ended
              rw [ended] at opened
              exact opened
            · rename_i ended
              rw [ended] at opened
              exact opened

/-- A call whose statements do not fail leaves the connection outside a transaction. -/
theorem runOnce_idle (platform : Platform) (config : Config) (operation : Operation) (now : ℚ)
    (issue : σ → Except Failure Json.Value × σ) (connection : Connection) (state : σ)
    (idle : connection.pending = none) :
    (runOnce platform config {} operation now issue connection state).2.1.pending = none := by
  rw [runOnce]
  cases operationKey platform operation with
  | error failure => exact idle
  | ok key =>
    have opened :=
      replayOrIssue_open platform config operation key now issue connection.committed state
    simp only [immediate,Connection.beginImmediate,idle]
    generalize replayOrIssue platform config {} operation key now issue ⟨connection.committed,
      some connection.committed⟩ state =
      ended at opened
    obtain ⟨result,⟨committed,pending⟩,final⟩ := ended
    obtain ⟨rows,rfl⟩ := Option.isSome_iff_exists.mp opened
    cases result <;> rfl

end RunOnce

end QuilrMcp.CustomerMcp
