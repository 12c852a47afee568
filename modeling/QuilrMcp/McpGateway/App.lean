import QuilrMcp.Library.Bounded
import QuilrMcp.Library.Dict
import QuilrMcp.Library.Rendering
import QuilrMcp.McpGateway.Policy

/-! The gateway: authenticate, read, parse, authorize, forward, and answer the client.
Whatever no handler catches is answered by the server with a 500. -/
namespace QuilrMcp.McpGateway
open Library Library.Text
open Library.Json (Value)

structure Config where
  tokens : Option Str
  maxBodyBytes : Nat := 1048576
  enforceMethodAllowlist : Bool := true
  filterToolsList : Bool := false

/-- The server has decoded the header and checked that the declared length is a number. -/
structure Request where
  authorization : Option Str
  contentLength : Option Nat
  chunks : List Bytes
  octets : ∀ chunk ∈ chunks, ∀ byte ∈ chunk, byte < 0x100

def readBoundedBody (request : Request) (limit : Nat) : Option Bytes :=
  Bounded.readBounded request.contentLength limit request.chunks

inductive Reply
  | answer (status : Nat) (payload : Option Value)
  | raised
  | contact (body : Bytes) (denials : List Value) (allowed : List RpcMessage) (isBatch : Bool)

/-- The error object for a blocked message; a notification gets none. -/
def denialResponse (message : RpcMessage) (denial : Denial) : Option Value :=
  if message.isRequest then
    some (errorResponse denial.code denial.message message.id
      (some (.dict [(lit "method",.str message.method),
        (lit "tool",message.toolName.elim .null .str)])))
  else none

section Handler
variable (tables : Unicode.Tables) (format : Json.FloatFormat) (config : Config)

/-- The messages that may be forwarded and the answers to the others. -/
def review (principal : Principal) : List RpcMessage → List RpcMessage × List Value
  | [] => ([],[])
  | message::messages =>
    let (allowed,denials) := review principal messages
    match evaluate tables principal message config.enforceMethodAllowlist with
    | none => (message::allowed,denials)
    | some denial => (allowed,(denialResponse message denial).toList ++ denials)

/-- The original bytes when nothing is blocked, else the allowed messages encoded again. -/
def forwardBody (body : Bytes) (parsed : ParsedPayload) (first : RpcMessage)
    (rest : List RpcMessage) : Option Bytes :=
  if (first::rest).length = parsed.messages.length then some body
  else Encoding.encodeUtf8 (Json.dumps ⟨true,true⟩
    (if parsed.isBatch then .list ((first::rest).map (fun message => .dict message.raw))
      else .dict first.raw))

def handleMcpPost (request : Request) : Reply :=
  match resolvePrincipal tables config.tokens request.authorization with
  | .error (.authError detail) =>
    .answer 401 (some (errorResponse invalidRequest detail .null none))
  | .error .unicodeEncodeError => .raised
  | .ok principal =>
    match readBoundedBody request config.maxBodyBytes with
    | none =>
      .answer 413 (some (errorResponse invalidRequest
        (lit "Request body exceeds the configured limit.") .null none))
    | some body =>
      match parsePayload tables format body with
      | .error (.invalidPayload code message id) =>
        .answer 400 (some (errorResponse code message id none))
      | .error _ => .raised
      | .ok parsed =>
        match review tables config principal parsed.messages with
        | ([],[]) => .answer 204 none
        | ([],first::rest) =>
          .answer 200 (some (if parsed.isBatch then .list (first::rest) else first))
        | (first::rest,denials) =>
          match forwardBody body parsed first rest with
          | none => .raised
          | some sent => .contact sent denials (first::rest) parsed.isBatch

/-- What the downstream server sends. `content` is what is left when the client library has undone
a compression, which the headers go on to name. -/
structure Downstream where
  status : Nat
  contentType : Str
  compressed : Bool
  content : Bytes

inductive DownstreamError
  | timeout
  | unavailable

def DownstreamError.summary : DownstreamError → Str
  | .timeout => lit "The upstream MCP server did not respond in time."
  | .unavailable => lit "The upstream MCP server is unavailable."

/-- Downstream's status, headers and content unchanged, a JSON response of the gateway's own, or a 500. -/
inductive ClientReply
  | relayed (downstream : Downstream)
  | rendered (status : Nat) (payload : Value)
  | raised

def jsonRpcResponse (payload : Value) (status : Nat) : ClientReply :=
  if (Json.render payload).isSome then .rendered status payload else .raised

/-- Strip the privileged tools from the result of tools/list, for a caller who is not admin. -/
def filterToolsList (principal : Principal) (payload : Value) : Value :=
  if principal.isAdmin then payload
  else match payload with
    | .dict fields =>
      match Json.lookup (lit "result") fields with
      | some (.dict result) =>
        match Json.lookup (lit "tools") result with
        | some (.list tools) =>
          let visible := tools.filter (fun tool => match tool with
            | .dict tool =>
              match Json.lookup (lit "name") tool with
              | some (.str name) => !isPrivilegedTool tables name
              | _ => true
            | _ => true)
          .dict (Dict.assign (lit "result")
            (.dict (Dict.assign (lit "tools") (.list visible) result)) fields)
        | _ => payload
      | _ => payload
    | _ => payload

/-- `json.loads` of the content. The last pair with a key wins. -/
def loadContent (content : Bytes) : Option Value :=
  match Encoding.decodeDetected content with
  | none => none
  | some text =>
    let loaded : Except (Json.Error Unit) Value :=
      Json.loads format (fun pairs => .ok (Dict.ofPairs pairs)) text
    loaded.toOption

def isJson (contentType : Str) : Bool := (lit "application/json").isPrefixOf contentType

def malformedResponse : Value :=
  errorResponse upstreamUnavailable (lit "Malformed response from the upstream MCP server.")
    .null none

def filtered (principal : Principal) (payload : Value) : Value :=
  if config.filterToolsList then
    match payload with
    | .list items => .list (items.map (filterToolsList tables principal))
    | item => filterToolsList tables principal item
  else payload

def merged (denials : List Value) (payload : Value) : Value :=
  if denials.isEmpty then payload
  else match payload with
    | .list items => .list (items ++ denials)
    | item => .list (item::denials)

def buildClientResponse (downstream : Downstream) (denials : List Value) (principal : Principal) :
    ClientReply :=
  if denials.isEmpty && !(config.filterToolsList && isJson downstream.contentType) then
    .relayed downstream
  else if !isJson downstream.contentType then jsonRpcResponse (.list denials) downstream.status
  else match loadContent format downstream.content with
    | none => jsonRpcResponse (.list (denials ++ [malformedResponse])) 502
    | some payload =>
      jsonRpcResponse (merged denials (filtered tables config principal payload)) downstream.status

def upstreamError (error : DownstreamError) (allowed : List RpcMessage) : Value :=
  errorResponse upstreamUnavailable error.summary
    (match allowed with | first::_ => if first.isRequest then first.id else .null | [] => .null) none

/-- The whole handler. The principal of a request that is forwarded is the one it was reviewed for. -/
def respond (request : Request) (forward : Bytes → Except DownstreamError Downstream) :
    ClientReply :=
  match handleMcpPost tables format config request with
  | .answer status none => .relayed ⟨status,[],false,[]⟩
  | .answer status (some payload) => jsonRpcResponse payload status
  | .raised => .raised
  | .contact sent denials allowed isBatch =>
    match forward sent with
    | .error error =>
      jsonRpcResponse (if isBatch then .list (denials ++ [upstreamError error allowed])
        else upstreamError error allowed) 502
    | .ok downstream =>
      match resolvePrincipal tables config.tokens request.authorization with
      | .ok principal => buildClientResponse tables format config downstream denials principal
      | .error _ => .raised

end Handler

end QuilrMcp.McpGateway
