import QuilrMcp.Library.Encoding
import QuilrMcp.Library.Unicode

/-! Bearer token to principal. -/
namespace QuilrMcp.McpGateway
open Library Library.Text

structure Principal where
  subject : Str
  role : Str
  deriving DecidableEq

def Principal.isAdmin (principal : Principal) : Bool := principal.role = lit "admin"

inductive AuthFailure
  | authError (detail : Str)
  | unicodeEncodeError
  deriving DecidableEq

def defaultTokens : List (Str × Principal) :=
  [(lit "admin-token-abc123",⟨lit "ops@example.com",lit "admin"⟩),
    (lit "viewer-token-xyz789",⟨lit "analyst@example.com",lit "viewer"⟩),
    (lit "viewer-token-second",⟨lit "intern@example.com",lit "viewer"⟩)]

def tokenEntry (tables : Unicode.Tables) (entry : Str) : Option (Str × Principal) :=
  let (token,rest) := Unicode.partition 58 (tables.strip entry)
  let (subject,role) := Unicode.partition 58 rest
  if token.isEmpty || subject.isEmpty || role.isEmpty then none else some (token,⟨subject,role⟩)

/-- `MCP_GATEWAY_TOKENS`, or the demo credentials. A token given twice has the last principal. -/
def tokenTable (tables : Unicode.Tables) (configured : Option Str) : List (Str × Principal) :=
  match configured with
  | none => defaultTokens
  | some [] => defaultTokens
  | some text => ((Unicode.split 44 text).filterMap (tokenEntry tables))

def extractBearerToken (tables : Unicode.Tables) (header : Option Str) : Except AuthFailure Str :=
  match header with
  | none => .error (.authError (lit "Missing Authorization header."))
  | some [] => .error (.authError (lit "Missing Authorization header."))
  | some value =>
    let (scheme,token) := Unicode.partition 32 value
    if tables.lower scheme ≠ lit "bearer" then
      .error (.authError (lit "Authorization header must use the Bearer scheme."))
    else if (tables.strip token).isEmpty then .error (.authError (lit "Bearer token is empty."))
    else .ok (tables.strip token)

/-- Compare with every known token; the last that matches wins. -/
def matchToken (candidate : Bytes) :
    List (Str × Principal) → Option Principal → Except AuthFailure (Option Principal)
  | [], matched => .ok matched
  | (known,principal)::rest, matched =>
    match Encoding.encodeUtf8 known with
    | none => .error .unicodeEncodeError
    | some bytes =>
      matchToken candidate rest (if candidate = bytes then some principal else matched)

def resolvePrincipal (tables : Unicode.Tables) (configured : Option Str) (header : Option Str) :
    Except AuthFailure Principal :=
  match extractBearerToken tables header with
  | .error failure => .error failure
  | .ok token =>
    match Encoding.encodeUtf8 token with
    | none => .error .unicodeEncodeError
    | some candidate =>
      match matchToken candidate (tokenTable tables configured) none with
      | .error failure => .error failure
      | .ok none => .error (.authError (lit "Invalid or unknown bearer token."))
      | .ok (some principal) => .ok principal

theorem matchToken_owner {candidate : Bytes} {table : List (Str × Principal)}
    {matched : Option Principal} {principal : Principal}
    (found : matchToken candidate table matched = .ok (some principal)) :
    matched = some principal ∨ ∃ token, Encoding.encodeUtf8 token = some candidate ∧
    (token,principal) ∈ table := by
  induction table generalizing matched with
  | nil => exact Or.inl (Except.ok.inj found)
  | cons entry table ih =>
    obtain ⟨known,owner⟩ := entry
    rw [matchToken] at found
    split at found
    · cases found
    · rename_i bytes encoded
      rcases ih found with before | ⟨token,own,listed⟩
      · split_ifs at before with same
        · cases before
          exact Or.inr ⟨known,encoded.trans (congrArg some same.symm),List.mem_cons_self⟩
        · exact Or.inl before
      · exact Or.inr ⟨token,own,List.mem_cons_of_mem _ listed⟩

theorem matchToken_error {candidate : Bytes} {table : List (Str × Principal)}
    {matched : Option Principal} {failure : AuthFailure}
    (failed : matchToken candidate table matched = .error failure) :
    failure = .unicodeEncodeError := by
  induction table generalizing matched with
  | nil => cases failed
  | cons entry table ih =>
    rw [matchToken] at failed
    split at failed
    · cases failed
      rfl
    · exact ih failed

/-- A caller is the owner of the token that the header gives. -/
theorem resolvePrincipal_owner {tables : Unicode.Tables} {configured header : Option Str}
    {principal : Principal} (resolved : resolvePrincipal tables configured header = .ok principal) :
    ∃ token, extractBearerToken tables header = .ok token ∧
    (token,principal) ∈ tokenTable tables configured := by
  rw [resolvePrincipal] at resolved
  split at resolved
  · cases resolved
  · rename_i token bearer
    split at resolved
    · cases resolved
    · rename_i candidate encoded
      split at resolved
      · cases resolved
      · cases resolved
      · rename_i found
        cases resolved
        rcases matchToken_owner found with none_ | ⟨known,own,listed⟩
        · cases none_
        · exact ⟨token,bearer,Encoding.encodeUtf8_inj own encoded ▸ listed⟩

end QuilrMcp.McpGateway
