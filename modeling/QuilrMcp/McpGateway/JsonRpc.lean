import QuilrMcp.Library.Encoding
import QuilrMcp.Library.JsonReading
import QuilrMcp.Library.Unicode

/-! JSON-RPC 2.0 wire format: parsing, classification, error construction. -/
namespace QuilrMcp.McpGateway
open Library Library.Text
open Library.Json (Value)

def parseError : Int := -32700
def invalidRequest : Int := -32600
def methodNotFound : Int := -32601
def invalidParams : Int := -32602
def unauthorizedToolCall : Int := -32001
def upstreamUnavailable : Int := -32002

/-- `params` that are present and not null. -/
inductive Params
  | dict (fields : List (Str × Value))
  | list (items : List Value)

/-- One parsed message. `raw` holds the fields of the object it was parsed from. -/
structure RpcMessage where
  method : Str
  params : Option Params
  id : Value
  isRequest : Bool
  raw : List (Str × Value)

/-- `params.name`, or none if absent or not a string. -/
def RpcMessage.toolName (message : RpcMessage) : Option Str :=
  match message.params with
  | some (.dict fields) =>
    match Json.lookup (lit "name") fields with
    | some (.str name) => some name
    | _ => none
  | _ => none

/-- The first key that an object repeats. -/
def duplicateKey (seen : List Str) : List (Str × Value) → Option Str
  | [] => none
  | (key,_)::rest => if key ∈ seen then some key else duplicateKey (key::seen) rest

def rejectDuplicateKeys (pairs : List (Str × Value)) : Except Str (List (Str × Value)) :=
  match duplicateKey [] pairs with
  | some key => .error key
  | none => .ok pairs

/-- What `parse_payload` may raise: its own refusal, or what `json.loads` raises and it does not catch. -/
inductive ParseFailure
  | invalidPayload (code : Int) (message : Str) (id : Value)
  | unicodeDecodeError
  | valueError
  | outOfFuel

def errorResponse (code : Int) (message : Str) (id : Value) (data : Option Value) : Value :=
  .dict [(lit "jsonrpc",.str (lit "2.0")),(lit "id",id),
    (lit "error",.dict ([(lit "code",.int code),(lit "message",.str message)] ++
      (data.map (fun data => (lit "data",data))).toList))]

/-- A string, a number or null, never a boolean. -/
def validId : Value → Bool
  | .null => true
  | .str _ => true
  | .int _ => true
  | .float _ => true
  | _ => false

def isVersion : Option Value → Bool
  | some (.str version) => version = lit "2.0"
  | _ => false

def parseParams : Option Value → Except Unit (Option Params)
  | none => .ok none
  | some .null => .ok none
  | some (.dict fields) => .ok (some (.dict fields))
  | some (.list items) => .ok (some (.list items))
  | some _ => .error ()

def parseOne : Value → Except ParseFailure RpcMessage
  | .dict item =>
    let rawId := (Json.lookup (lit "id") item).getD .null
    let messageId := if validId rawId then rawId else .null
    if isVersion (Json.lookup (lit "jsonrpc") item) = false then
      .error (.invalidPayload invalidRequest
        (lit "Missing or unsupported 'jsonrpc' version; expected '2.0'.") messageId)
    else match Json.lookup (lit "method") item with
      | some (.str (code::method)) =>
        match parseParams (Json.lookup (lit "params") item) with
        | .error _ =>
          .error (.invalidPayload invalidParams
            (lit "Request 'params' must be an object or an array.") messageId)
        | .ok params =>
          if (Json.lookup (lit "id") item).isSome && !validId rawId then
            .error (.invalidPayload invalidRequest
              (lit "Request 'id' must be a string, number, or null.") .null)
          else .ok ⟨code::method,params,messageId,(Json.lookup (lit "id") item).isSome,item⟩
      | _ => .error (.invalidPayload invalidRequest
          (lit "Request 'method' must be a non-empty string.") messageId)
  | _ => .error (.invalidPayload invalidRequest (lit "Request must be a JSON object.") .null)

structure ParsedPayload where
  messages : List RpcMessage
  isBatch : Bool

/-- The messages of a list, up to the first that is refused. -/
def parseAll : List Value → Except ParseFailure (List RpcMessage)
  | [] => .ok []
  | item::items =>
    match parseOne item with
    | .error failure => .error failure
    | .ok message => (parseAll items).map (message::·)

def parseDocument : Value → Except ParseFailure ParsedPayload
  | .list [] =>
    .error (.invalidPayload invalidRequest (lit "Batch must contain at least one request.") .null)
  | .list items => (parseAll items).map (⟨·,true⟩)
  | document => (parseOne document).map (⟨[·],false⟩)

/-- White space of `bytes.strip()`. -/
def isAsciiSpace (byte : Nat) : Bool := byte == 32 || (9 ≤ byte && byte ≤ 13)

def loadFailure (tables : Unicode.Tables) : Json.Error Str → ParseFailure
  | .syntaxError message => .invalidPayload parseError (lit "Invalid JSON: " ++ lit message ++
      lit ".") .null
  | .valueError => .valueError
  | .hook key => .invalidPayload invalidRequest
      (lit "Duplicate key " ++ tables.repr key ++
        lit " in a JSON object; the request is ambiguous.") .null
  | .outOfFuel => .outOfFuel

/-- `json.loads` of bytes. -/
def loadDocument (tables : Unicode.Tables) (format : Json.FloatFormat) (body : Bytes) :
    Except ParseFailure Value :=
  match Encoding.decodeDetected body with
  | none => .error .unicodeDecodeError
  | some text =>
    match Json.decode format rejectDuplicateKeys text with
    | .error error => .error (loadFailure tables error)
    | .ok document => .ok document

def parsePayload (tables : Unicode.Tables) (format : Json.FloatFormat) (body : Bytes) :
    Except ParseFailure ParsedPayload :=
  if body.all isAsciiSpace then
    .error (.invalidPayload invalidRequest (lit "Empty request body.") .null)
  else match loadDocument tables format body with
    | .error failure => .error failure
    | .ok document => parseDocument document

end QuilrMcp.McpGateway
