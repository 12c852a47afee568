import QuilrMcp.McpGateway.Auth
import QuilrMcp.McpGateway.JsonRpc

/-! Method-level authorization: who may call what. -/
namespace QuilrMcp.McpGateway
open Library Library.Text
open Library.Json (Value)

def adminToolPrefix : Str := lit "admin_"
def toolsCall : Str := lit "tools/call"

def knownMethods : List Str :=
  [lit "initialize",lit "ping",lit "completion/complete",lit "logging/setLevel",lit "prompts/list",
    lit "prompts/get",
    lit "resources/list",lit "resources/read",lit "resources/subscribe",lit "resources/unsubscribe",
    lit "resources/templates/list",lit "roots/list",lit "sampling/createMessage",
    lit "elicitation/create",
    lit "tools/list",toolsCall,lit "notifications/initialized",lit "notifications/cancelled",
    lit "notifications/progress",lit "notifications/message",lit "notifications/roots/list_changed",
    lit "notifications/resources/updated",lit "notifications/resources/list_changed",
    lit "notifications/tools/list_changed",lit "notifications/prompts/list_changed"]

structure Denial where
  code : Int
  message : Str
  reason : Str
  deriving DecidableEq

section Policy
variable (tables : Unicode.Tables)

def isInvisible (code : Nat) : Bool :=
  match tables.category code with
  | .cc => true
  | .cf => true
  | .zs => true
  | .zl => true
  | .zp => true
  | _ => false

/-- Fold a tool name to the form the prefix check runs against. -/
def normalizeToolName (name : Str) : Str :=
  let folded := (tables.nfkc name).filter (fun code => !isInvisible tables code)
  let decomposed := tables.nfd (tables.casefold folded)
  tables.nfc (decomposed.filter (fun code => tables.category code ≠ .mn))

def isPrivilegedTool (name : Str) : Bool :=
  adminToolPrefix.isPrefixOf (normalizeToolName tables name)

def normalizeMethod (method : Str) : Str := tables.casefold (tables.strip (tables.nfkc method))

theorem toolsCall_normalized : normalizeMethod tables toolsCall = toolsCall := by
  have plain : Unicode.IsAscii toolsCall := by unfold Unicode.IsAscii; decide
  have stripped : tables.strip toolsCall = toolsCall := by
    have solid (code : Nat) (small : code < 128) (letter : Unicode.isAsciiSpace code = false) :
        tables.isSpace code = false := by rw [tables.isSpace_ascii code small,letter]
    have first := solid 116 (by decide) (by decide)
    have last := solid 108 (by decide) (by decide)
    simp only [Unicode.Tables.strip,toolsCall,lit]
    simp [first,last]
  rw [normalizeMethod,tables.nfkc_ascii _ plain,stripped,tables.casefold_ascii _ plain]
  decide

/-- `none` allows the message. -/
def evaluate (principal : Principal) (message : RpcMessage) (enforceAllowlist : Bool) :
    Option Denial :=
  let normalized := normalizeMethod tables message.method
  -- The raw method is compared here, so one that matches only after folding is refused.
  if enforceAllowlist && !(message.method ∈ knownMethods) then
    some ⟨methodNotFound,lit "Unknown method.",lit "method_not_allowlisted"⟩
  else if normalized ≠ toolsCall then none
  else match message.params with
    | some (.dict _) =>
      match message.toolName with
      | none => some ⟨invalidParams,lit "tools/call requires 'params.name' to be a string.",
          lit "missing_tool_name"⟩
      | some name =>
        if isPrivilegedTool tables name && !principal.isAdmin then
          some ⟨unauthorizedToolCall,lit "Unauthorized Tool Call",lit "insufficient_role"⟩
        else none
    | _ => some ⟨invalidParams,lit "tools/call requires a params object containing 'name'.",
        lit "malformed_params"⟩

end Policy

end QuilrMcp.McpGateway
