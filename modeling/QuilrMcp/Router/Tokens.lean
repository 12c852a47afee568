import QuilrMcp.Library.Dict
import QuilrMcp.Library.Json
import QuilrMcp.Library.Unicode
import QuilrMcp.Library.Utf8

/-! Token accounting: the estimate before the call, and the usage that a response or a stream reports. -/
namespace QuilrMcp.Router.Tokens
open Library Library.Text
open Library.Json (Value lookup truthy)

def charsPerToken : Nat := 4
def defaultMaxTokens : Int := 1024
def maxReservableTokens : Int := 1000000
def minimumCharge : Int := 1

def dumpedLength (value : Value) : Nat := (Json.dumps ⟨true,true⟩ value).length

/-- The values that a `for` loop over a JSON value goes through. -/
def iterate : Value → Option (List Value)
  | .list items => some items
  | .dict fields => some (fields.map (fun field => .str field.1))
  | .str text => some (text.map (fun code => .str [code]))
  | _ => none

def contentLength : Value → Nat
  | .dict message =>
    match lookup (lit "content") message with
    | some (.str text) => text.length
    | none => 0
    | some .null => 0
    | some content => dumpedLength content
  | _ => 0

def estimateInputTokens (body : List (Str × Value)) : Option Nat :=
  let system := match lookup (lit "system") body with
    | some (.str text) => text.length
    | some (.list items) => dumpedLength (.list items)
    | _ => 0
  let messages := (lookup (lit "messages") body).getD (.list [])
  let tools := (lookup (lit "tools") body).getD .null
  (if truthy messages then iterate messages else some []).map (fun messages =>
    max 1 ((system + (messages.map contentLength).sum +
      if truthy tools then dumpedLength tools else 0) / charsPerToken))

def reservationSize (body : List (Str × Value)) : Option Int :=
  let maxTokens := match lookup (lit "max_tokens") body with
    | some (.int value) => if 0 < value then value else defaultMaxTokens
    | _ => defaultMaxTokens
  (estimateInputTokens body).map (fun input => (input : Int) + min maxTokens maxReservableTokens)

/-- A value that is an `int`, as a boolean is, and not negative. -/
def countOf : Value → Option Int
  | .int value => if 0 ≤ value then some value else none
  | .bool value => some (if value then 1 else 0)
  | _ => none

/-- The same without booleans. -/
def strictCountOf : Value → Option Int
  | .int value => if 0 ≤ value then some value else none
  | _ => none

def inputKeys : List Str :=
  [lit "input_tokens",lit "cache_creation_input_tokens",lit "cache_read_input_tokens"]
def usageKeys : List Str :=
  [lit "input_tokens",lit "output_tokens",lit "cache_creation_input_tokens",
    lit "cache_read_input_tokens"]

/-- Real token spend, or none if the response did not say. -/
def actualTokens : Value → Option Int
  | .dict response =>
    match lookup (lit "usage") response with
    | some (.dict usage) =>
      let counts := usageKeys.filterMap (fun key => (lookup key usage).bind countOf)
      if counts.isEmpty then none else some (max minimumCharge counts.sum)
    | _ => none
  | _ => none

structure StreamUsageCollector where
  buffer : Str
  inputTokens : Int
  outputTokens : Int
  sawUsage : Bool

namespace StreamUsageCollector

def new : StreamUsageCollector := ⟨[],0,0,false⟩

def add (self : StreamUsageCollector) (usage : List (Str × Value)) : StreamUsageCollector :=
  let input := inputKeys.filterMap (fun key => (lookup key usage).bind strictCountOf)
  let self := {self with inputTokens := self.inputTokens + input.sum, sawUsage := self.sawUsage ||
    !input.isEmpty}
  match (lookup (lit "output_tokens") usage).bind strictCountOf with
  | some output => {self with outputTokens := output, sawUsage := true}
  | none => self

/-- The usage of an event, its own or its message's. -/
def usageOf : Value → Option (List (Str × Value))
  | .dict event =>
    match lookup (lit "usage") event with
    | some (.dict usage) => some usage
    | _ =>
      match lookup (lit "message") event with
      | some (.dict message) =>
        match lookup (lit "usage") message with
        | some (.dict usage) => some usage
        | _ => none
      | _ => none
  | _ => none

section Feeding
variable (tables : Unicode.Tables) (format : Json.FloatFormat)

def consume (self : StreamUsageCollector) (line : Str) : StreamUsageCollector :=
  if (lit "data:").isPrefixOf line then
    let payload := tables.strip (line.drop 5)
    if payload.isEmpty || payload = lit "[DONE]" then self
    else
      let loaded : Except (Json.Error Unit) Value :=
        Json.loads format (fun pairs => .ok (Dict.ofPairs pairs)) payload
      match loaded with
      | .error _ => self
      | .ok event =>
        match usageOf event with
        | some usage => self.add usage
        | none => self
  else self

def feed (self : StreamUsageCollector) (chunk : Bytes) : StreamUsageCollector :=
  let parts := Unicode.split 10 (self.buffer ++ Utf8.decodeReplace chunk)
  parts.dropLast.foldl (fun self line => self.consume tables format (tables.strip line))
    {self with buffer := parts.getLast?.getD []}

end Feeding

def total (self : StreamUsageCollector) : Option Int :=
  if self.sawUsage then some (max minimumCharge (self.inputTokens + self.outputTokens)) else none

end StreamUsageCollector

end QuilrMcp.Router.Tokens
