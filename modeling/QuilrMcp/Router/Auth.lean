import QuilrMcp.Library.Dict
import QuilrMcp.Library.Encoding
import QuilrMcp.Library.Unicode
import Mathlib.Data.List.TakeWhile

/-! Tenant keys. A configured key is what stands before the first `=` of its entry, and a presented one is
compared as the header is read. -/
namespace QuilrMcp.Router.Auth
open Library Library.Text

inductive AuthFailure
  | authError (detail : Str)
  | unicodeEncodeError
  deriving DecidableEq

/-- An authenticated caller, identified by something that is not a secret. -/
structure Tenant where
  id : Str
  deriving DecidableEq

section Tables
variable (tables : Unicode.Tables)

/-- The key and the tenant of one entry. An entry without either is passed over. -/
def tenantEntry (entry : Str) : Option (Str × Str) :=
  let (apiKey,tenantId) := Unicode.partition 61 (tables.strip entry)
  if (tables.strip entry).contains 61 && !(tables.strip apiKey).isEmpty &&
    !(tables.strip tenantId).isEmpty then
    some (tables.strip apiKey,tables.strip tenantId)
  else none

def parseTenantTable : Option Str → List (Str × Str)
  | none => []
  | some [] => []
  | some text => Dict.ofPairs ((Unicode.split 44 text).filterMap (tenantEntry tables))

def extractApiKey (xApiKey authorization : Option Str) : Except AuthFailure Str :=
  let candidate := match xApiKey with
    | some (code::rest) => code::rest
    | _ => authorization.getD []
  let candidate := if tables.lower (candidate.take 7) = lit "bearer " then candidate.drop 7
    else candidate
  if (tables.strip candidate).isEmpty then
    .error (.authError (lit "An API key is required, via x-api-key or Authorization: Bearer."))
  else .ok (tables.strip candidate)

end Tables

/-- Compare with every known key; the last that matches wins. -/
def matchKey (candidate : Bytes) : List (Str × Str) → Option Str → Except AuthFailure (Option Str)
  | [], matched => .ok matched
  | (known,tenantId)::rest, matched =>
    match Encoding.encodeUtf8 known with
    | none => .error .unicodeEncodeError
    | some bytes => matchKey candidate rest (if candidate = bytes then some tenantId else matched)

/-- The digits of the digest are a parameter. -/
def keyFingerprint (hexdigest : Bytes → Str) (apiKey : Bytes) : Str :=
  lit "anon-" ++ (hexdigest apiKey).take 32

def resolveTenant (hexdigest : Bytes → Str) (apiKey : Str) (table : List (Str × Str))
    (allowUnauthenticated : Bool := false) :
    Except AuthFailure Tenant :=
  match Encoding.encodeUtf8 apiKey with
  | none => .error .unicodeEncodeError
  | some candidate =>
    match matchKey candidate table none with
    | .error failure => .error failure
    | .ok (some tenantId) => .ok ⟨tenantId⟩
    | .ok none =>
      if allowUnauthenticated then .ok ⟨keyFingerprint hexdigest candidate⟩
      else .error (.authError (lit "Invalid or unknown API key."))

/-- The pairs as they are configured. -/
def configured (pairs : List (Str × Str)) : Str :=
  [44].intercalate (pairs.map (fun pair => pair.1 ++ 61::pair.2))

section Listed
variable (tables : Unicode.Tables)

/-- Something that can stand in an entry: not empty, with no comma and no white space around it. -/
structure Bare (text : Str) : Prop where
  filled : text ≠ []
  comma : 44 ∉ text
  front : ∀ code ∈ text.head?, tables.isSpace code = false
  back : ∀ code ∈ text.getLast?, tables.isSpace code = false

structure Listed (pairs : List (Str × Str)) : Prop where
  distinct : (pairs.map Prod.fst).Nodup
  keys : ∀ pair ∈ pairs, Bare tables pair.1
  tenants : ∀ pair ∈ pairs, Bare tables pair.2

def Encodable (pairs : List (Str × Str)) : Prop :=
  ∀ pair ∈ pairs, ∀ code ∈ pair.1, isSurrogate code = false

/-- The key that the entry of a key is read for: what stands before the first `=`. -/
def stem (key : Str) : Str := tables.strip (Unicode.partition 61 key).1

variable {tables}

theorem Bare.stripped {text : Str} (bare : Bare tables text) : tables.strip text = text :=
  Unicode.strip_closed tables bare.front bare.back

theorem stem_unparted {key : Str} (bare : Bare tables key) (absent : 61 ∉ key) :
    stem tables key = key := by
  have before : ∀ code ∈ key, decide (code ≠ 61) = true := by
    intro code member
    apply decide_eq_true
    rintro rfl
    exact absent member
  rw [stem,Unicode.partition,List.takeWhile_eq_self_iff.mpr before]
  exact bare.stripped

theorem mem_stem {key : Str} {code : Nat} (member : code ∈ stem tables key) : code ∈ key :=
  (List.takeWhile_prefix _).subset (Unicode.mem_strip tables member)

/-- There is no white space around an entry as it is written. -/
theorem entry_stripped {key tenantId : Str} (key_ : Bare tables key)
    (tenant : Bare tables tenantId) :
    tables.strip (key ++ 61::tenantId) = key ++ 61::tenantId := by
  apply Unicode.strip_closed
  · obtain ⟨code,rest,rfl⟩ := List.exists_cons_of_ne_nil key_.filled
    exact key_.front
  · obtain ⟨code,rest,shape⟩ := List.exists_cons_of_ne_nil tenant.filled
    have last : (key ++ 61::tenantId).getLast? = tenantId.getLast? := by
      rw [List.getLast?_append_of_ne_nil _ (List.cons_ne_nil _ _),shape,List.getLast?_cons_cons]
    rw [last]
    exact tenant.back

/-- An entry is read as the pair that was written where its key has no `=`. -/
theorem tenantEntry_written {key tenantId : Str} (key_ : Bare tables key)
    (tenant : Bare tables tenantId) (absent : 61 ∉ key) :
    tenantEntry tables (key ++ 61::tenantId) = some (key,tenantId) := by
  have filled := List.isEmpty_eq_false_iff.mpr key_.filled
  have filled' := List.isEmpty_eq_false_iff.mpr tenant.filled
  rw [tenantEntry,entry_stripped key_ tenant,Unicode.partition_append absent]
  simp [key_.stripped,tenant.stripped,filled,filled']

theorem tenantEntry_stem {key tenantId : Str} {entry : Str × Str} (key_ : Bare tables key)
    (tenant : Bare tables tenantId) (read : tenantEntry tables (key ++ 61::tenantId) = some entry) :
    entry.1 = stem tables key := by
  by_cases parted : 61 ∈ key
  · obtain ⟨front,back,rfl,absent⟩ := List.eq_append_cons_of_mem parted
    have whole : front ++ 61::back ++ 61::tenantId = front ++ 61::(back ++ 61::tenantId) := by
      rw [List.append_assoc,List.cons_append]
    rw [tenantEntry,entry_stripped key_ tenant,whole,Unicode.partition_append absent] at read
    dsimp only at read
    rw [stem,Unicode.partition_append absent]
    split_ifs at read
    cases read
    rfl
  · rw [tenantEntry_written key_ tenant parted] at read
    cases read
    exact (stem_unparted key_ parted).symm

/-- The table is that of the entries, as they were joined. -/
theorem parseTenantTable_configured {pairs : List (Str × Str)} (listed : Listed tables pairs) :
    parseTenantTable tables (some (configured pairs)) =
      Dict.ofPairs (pairs.filterMap (fun pair => tenantEntry tables (pair.1 ++ 61::pair.2))) := by
  cases pairs with
  | nil => rfl
  | cons pair rest =>
    have parted : Unicode.split 44 (configured (pair::rest)) =
      (pair::rest).map (fun pair => pair.1 ++ 61::pair.2) := by
      rw [Unicode.split_eq,configured]
      apply List.splitOn_intercalate
      · intro entry member
        obtain ⟨other,inside,rfl⟩ := List.mem_map.mp member
        have key := (listed.keys other inside).comma
        have tenant := (listed.tenants other inside).comma
        simp [key,tenant]
      · exact List.cons_ne_nil _ _
    obtain ⟨code,text,shape⟩ : ∃ code text, configured (pair::rest) = code::text := by
      apply List.exists_cons_of_ne_nil
      intro empty
      rw [empty] at parted
      obtain ⟨code,key,filled⟩ :=
        List.exists_cons_of_ne_nil (listed.keys pair List.mem_cons_self).filled
      simp [Unicode.split,filled] at parted
    rw [shape,parseTenantTable,← shape,parted,List.filterMap_map]
    · rfl
    · intro empty
      contradiction

/-- Every key of the table is what stands before the first `=` of a configured one. -/
theorem parseTenantTable_keys {pairs : List (Str × Str)} (listed : Listed tables pairs)
    {entry : Str × Str} (member : entry ∈ parseTenantTable tables (some (configured pairs))) :
    ∃ pair ∈ pairs, entry.1 = stem tables pair.1 ∧
    tenantEntry tables (pair.1 ++ 61::pair.2) = some entry := by
  rw [parseTenantTable_configured listed] at member
  obtain ⟨pair,inside,read⟩ := List.mem_filterMap.mp (Dict.mem_ofPairs member)
  exact ⟨pair,inside,tenantEntry_stem (listed.keys pair inside)
    (listed.tenants pair inside) read,read⟩

theorem parseTenantTable_lookup {pairs : List (Str × Str)} (listed : Listed tables pairs)
    {pair : Str × Str} (member : pair ∈ pairs) (absent : 61 ∉ pair.1)
    (only : ∀ other ∈ pairs, stem tables other.1 = pair.1 → other = pair) :
    (parseTenantTable tables (some (configured pairs))).lookup pair.1 = some pair.2 := by
  have written := tenantEntry_written (listed.keys pair member) (listed.tenants pair member) absent
  rw [parseTenantTable_configured listed]
  apply Dict.ofPairs_lookup
  · exact List.mem_filterMap.mpr ⟨pair,member,written⟩
  · intro entry listed' same
    obtain ⟨other,inside,read⟩ := List.mem_filterMap.mp listed'
    have cut := tenantEntry_stem (listed.keys other inside) (listed.tenants other inside) read
    obtain rfl := only other inside (cut.symm.trans same)
    exact Option.some.inj (read.symm.trans written)

theorem matchKey_lookup {apiKey : Str} {candidate : Bytes} {table : List (Str × Str)}
    (matched : Option Str) (encoded : Encoding.encodeUtf8 apiKey = some candidate)
    (distinct : (table.map Prod.fst).Nodup)
    (characters : ∀ pair ∈ table, ∀ code ∈ pair.1, isSurrogate code = false) :
    matchKey candidate table matched = .ok ((table.lookup apiKey).or matched) := by
  induction table generalizing matched with
  | nil => rfl
  | cons pair table ih =>
    obtain ⟨known,tenantId⟩ := pair
    obtain ⟨absent,distinct⟩ := List.nodup_cons.mp distinct
    obtain ⟨own,characters⟩ := List.forall_mem_cons.mp characters
    obtain ⟨bytes,encoded'⟩ :=
      Option.isSome_iff_exists.mp ((Encoding.encodeUtf8_isSome known).mpr own)
    rw [matchKey,encoded',List.lookup_cons]
    dsimp only
    rw [ih _ distinct characters]
    by_cases same : apiKey = known
    · subst same
      rw [encoded] at encoded'
      obtain rfl := Option.some.inj encoded'
      have none_ : table.lookup apiKey = none := Dict.lookup_none_iff.mpr absent
      simp [none_]
    · have apart : candidate ≠ bytes := by
        rintro rfl
        exact same (Encoding.encodeUtf8_inj encoded encoded')
      rw [if_neg apart,beq_eq_false_iff_ne.mpr same]

/-- A key that can be encoded is looked up in the table. -/
theorem resolveTenant_lookup (hexdigest : Bytes → Str) {apiKey : Str} {table : List (Str × Str)}
    (distinct : (table.map Prod.fst).Nodup)
    (characters : ∀ pair ∈ table, ∀ code ∈ pair.1, isSurrogate code = false)
    (own : ∀ code ∈ apiKey, isSurrogate code = false) :
    resolveTenant hexdigest apiKey table =
      (table.lookup apiKey).elim (.error (.authError (lit "Invalid or unknown API key.")))
      (fun tenantId => .ok ⟨tenantId⟩) := by
  obtain ⟨candidate,encoded⟩ :=
    Option.isSome_iff_exists.mp ((Encoding.encodeUtf8_isSome apiKey).mpr own)
  rw [resolveTenant,encoded]
  dsimp only
  rw [matchKey_lookup none encoded distinct characters,Option.or_none]
  cases table.lookup apiKey <;> rfl

theorem extractApiKey_refused {xApiKey authorization : Option Str} {failure : AuthFailure}
    (refused : extractApiKey tables xApiKey authorization = .error failure) :
    ∃ detail, failure = .authError detail := by
  simp only [extractApiKey] at refused
  split_ifs at refused
  all_goals
    cases refused
    exact ⟨_,rfl⟩

/-- What is taken from a header is part of it. -/
theorem mem_extractApiKey {text key : Str}
    (taken : extractApiKey tables (some text) none = .ok key) :
    ∀ code ∈ key, code ∈ text := by
  have own : (match some text with
      | some (code::rest) => code::rest
      | _ => (none : Option Str).getD []) = text := by
    cases text <;> rfl
  simp only [extractApiKey,own] at taken
  split_ifs at taken
  all_goals
    cases taken
    intro code member
  · exact (List.drop_suffix 7 text).subset (Unicode.mem_strip tables member)
  · exact Unicode.mem_strip tables member

/-- A bare key without the scheme in front of it is taken as it is. -/
theorem extractApiKey_bare {key : Str} (bare : Bare tables key)
    (unprefixed : tables.lower (key.take 7) ≠ lit "bearer ") :
    extractApiKey tables (some key) none = .ok key := by
  obtain ⟨code,rest,rfl⟩ := List.exists_cons_of_ne_nil bare.filled
  simp only [extractApiKey,if_neg unprefixed,bare.stripped]
  rfl

end Listed

/-- The tenant of what is sent as `x-api-key`. -/
def authenticate (tables : Unicode.Tables) (hexdigest : Bytes → Str) (table : List (Str × Str))
    (text : Str) :
    Except AuthFailure Tenant :=
  match extractApiKey tables (some text) none with
  | .error failure => .error failure
  | .ok key => resolveTenant hexdigest key table

/-- Every configured pair authenticates as its tenant, and nothing else is a key. -/
def Exact (tables : Unicode.Tables) (hexdigest : Bytes → Str) (pairs : List (Str × Str)) : Prop :=
  (∀ pair ∈ pairs, authenticate tables hexdigest (parseTenantTable tables (some (configured pairs)))
    pair.1 = .ok ⟨pair.2⟩) ∧
    ∀ text, text ∉ pairs.map Prod.fst →
      ∃ detail, authenticate tables hexdigest (parseTenantTable tables (some (configured pairs)))
        text = .error (.authError detail)

/-- A configured key that no `=` parts authenticates as its tenant unless it begins as a header does with its
scheme. A text is the tenant of the configured key that is taken from it, and refused where what is taken
is not what stands before the first `=` of a configured key. -/
theorem configured_keys_authenticate (tables : Unicode.Tables) (hexdigest : Bytes → Str)
    {pairs : List (Str × Str)} (listed : Listed tables pairs) (encodable : Encodable pairs) :
    (∀ pair ∈ pairs, 61 ∉ pair.1 → (∀ other ∈ pairs, stem tables other.1 = pair.1 → other = pair) →
        tables.lower (pair.1.take 7) ≠ lit "bearer " →
        authenticate tables hexdigest (parseTenantTable tables (some (configured pairs))) pair.1 =
          .ok ⟨pair.2⟩) ∧
      (∀ pair ∈ pairs, 61 ∉ pair.1 → (∀ other ∈ pairs, stem tables other.1 = pair.1 →
        other = pair) →
        ∀ text, extractApiKey tables (some text) none = .ok pair.1 →
        authenticate tables hexdigest (parseTenantTable tables (some (configured pairs))) text =
          .ok ⟨pair.2⟩) ∧
      ∀ text, (∀ code ∈ text, isSurrogate code = false) →
        (∀ pair ∈ pairs, extractApiKey tables (some text) none ≠ .ok (stem tables pair.1)) →
        ∃ detail, authenticate tables hexdigest (parseTenantTable tables (some (configured pairs)))
          text = .error (.authError detail) := by
  have distinct : ((parseTenantTable tables (some (configured pairs))).map Prod.fst).Nodup := by
    rw [parseTenantTable_configured listed]
    exact (Dict.ofPairs_keys _).1
  have characters : ∀ entry ∈ parseTenantTable tables (some (configured pairs)), ∀ code ∈ entry.1,
    isSurrogate code = false := by
    intro entry member code inside
    obtain ⟨pair,configured_,cut,_⟩ := parseTenantTable_keys listed member
    rw [cut] at inside
    exact encodable pair configured_ code (mem_stem inside)
  have taken (pair : Str × Str) (member : pair ∈ pairs) (absent : 61 ∉ pair.1)
      (only : ∀ other ∈ pairs, stem tables other.1 = pair.1 → other = pair) (text : Str)
      (key : extractApiKey tables (some text) none = .ok pair.1) :
      authenticate tables hexdigest (parseTenantTable tables (some (configured pairs))) text =
        .ok ⟨pair.2⟩ := by
    rw [authenticate,key]
    dsimp only
    rw [resolveTenant_lookup hexdigest distinct characters (encodable pair member),
      parseTenantTable_lookup listed member absent only]
    rfl
  refine ⟨?_,taken,?_⟩
  · intro pair member absent only unprefixed
    exact taken pair member absent only _ (extractApiKey_bare (listed.keys pair member) unprefixed)
  · intro text own other
    rw [authenticate]
    cases key : extractApiKey tables (some text) none with
    | error failure =>
      obtain ⟨detail,rfl⟩ := extractApiKey_refused key
      exact ⟨detail,rfl⟩
    | ok key_ =>
      have absent : (parseTenantTable tables (some (configured pairs))).lookup key_ = none := by
        apply Dict.lookup_none_iff.mpr
        intro member
        obtain ⟨entry,listed',rfl⟩ := List.mem_map.mp member
        obtain ⟨pair,configured_,cut,_⟩ := parseTenantTable_keys listed listed'
        rw [cut] at key
        exact other pair configured_ key
      dsimp only
      rw [resolveTenant_lookup hexdigest distinct characters (fun code member =>
        own code (mem_extractApiKey key code member)),absent]
      exact ⟨_,rfl⟩

theorem configured_keys_authenticate_colons :
    authenticate Unicode.ascii (fun _ => []) (parseTenantTable Unicode.ascii
        (some (configured [(lit "sk-ant:api03:abc",lit "tenant-a"),(lit "plain",lit "tenant-b")])))
        (lit "sk-ant:api03:abc") =
      .ok ⟨lit "tenant-a"⟩ := by
  have bare : ∀ text ∈ [lit "sk-ant:api03:abc",lit "plain",lit "tenant-a",lit "tenant-b"],
    Bare Unicode.ascii text := by
    simp only [List.forall_mem_cons]
    exact ⟨⟨by decide,by decide,by decide,by decide⟩,⟨by decide,by decide,by decide,by decide⟩,
      ⟨by decide,by decide,by decide,by decide⟩,⟨by decide,by decide,by decide,by decide⟩,
      List.forall_mem_nil _⟩
  have listed : Listed Unicode.ascii [(lit "sk-ant:api03:abc",lit "tenant-a"),
    (lit "plain",lit "tenant-b")] := by
    refine ⟨by decide,?_,?_⟩
    · simp only [List.forall_mem_cons]
      exact ⟨bare _ (by simp),bare _ (by simp),List.forall_mem_nil _⟩
    · simp only [List.forall_mem_cons]
      exact ⟨bare _ (by simp),bare _ (by simp),List.forall_mem_nil _⟩
  have encodable : Encodable [(lit "sk-ant:api03:abc",lit "tenant-a"),
    (lit "plain",lit "tenant-b")] := by
    unfold Encodable
    decide
  exact (configured_keys_authenticate Unicode.ascii (fun _ => []) listed encodable).1 _
    List.mem_cons_self
    (by decide) (by decide) (by decide)

private theorem listed_one {key : Str} (bare : Bare Unicode.ascii key) :
    Listed Unicode.ascii [(key,lit "tenant-a")] := by
  have tenant : Bare Unicode.ascii (lit "tenant-a") := ⟨by decide,by decide,by decide,by decide⟩
  exact ⟨List.nodup_singleton _,List.forall_mem_singleton.mpr bare,
    List.forall_mem_singleton.mpr tenant⟩

/-- A key that begins with the scheme is refused, a key with white space around it is not, and a key that
`=` pads is cut short. A text that cannot be encoded is not refused as an unknown key is. -/
theorem configured_keys_inexact : (Listed Unicode.ascii [(lit "Bearer abc",lit "tenant-a")] ∧
        ¬ Exact Unicode.ascii (fun _ => []) [(lit "Bearer abc",lit "tenant-a")]) ∧
      (Listed Unicode.ascii [(lit "abc",lit "tenant-a")] ∧
        ¬ Exact Unicode.ascii (fun _ => []) [(lit "abc",lit "tenant-a")]) ∧
      (Listed Unicode.ascii [(lit "YWJj=",lit "tenant-a")] ∧
        ¬ Exact Unicode.ascii (fun _ => []) [(lit "YWJj=",lit "tenant-a")]) ∧
      authenticate Unicode.ascii (fun _ => []) (parseTenantTable Unicode.ascii
        (some (configured [(lit "abc",lit "tenant-a")]))) [55296] = .error .unicodeEncodeError := by
  refine ⟨⟨listed_one ⟨by decide,by decide,by decide,by decide⟩,?_⟩,
    ⟨listed_one ⟨by decide,by decide,by decide,by decide⟩,?_⟩,
    ⟨listed_one ⟨by decide,by decide,by decide,by decide⟩,?_⟩,by decide⟩
  · intro exact_
    exact absurd (exact_.1 _ List.mem_cons_self) (by decide)
  · intro exact_
    obtain ⟨detail,refused⟩ := exact_.2 (lit " abc") (by decide)
    have accepted : authenticate Unicode.ascii (fun _ => []) (parseTenantTable Unicode.ascii
        (some (configured [(lit "abc",lit "tenant-a")]))) (lit " abc") =
          .ok ⟨lit "tenant-a"⟩ := by decide
    rw [accepted] at refused
    cases refused
  · intro exact_
    exact absurd (exact_.1 _ List.mem_cons_self) (by decide)

end QuilrMcp.Router.Auth
