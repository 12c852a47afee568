import QuilrMcp.Guardrail.Patterns
import QuilrMcp.Library.Dict
import QuilrMcp.Library.Json

/-! The streaming redactor: redaction of what is held together with what arrives, the holdback
split, the fail-closed path for an over-long candidate, and the flush at the end. -/
namespace QuilrMcp.Guardrail.Redactor
open Library.Text
open Library.Search
open Library.Unicode (Classes)
open Library.Json (Value)
open Patterns

/-- The candidates that begin at `start`, from `stop` down to `floor`, until one is accepted. -/
def backOff (pattern : Pattern) (text : Str) (start floor : Nat) : Nat → Nat → Option Nat
  | 0, _ => none
  | fuel+1, stop =>
    if floor ≤ stop then
      match matchAt pattern.expression text start stop with
      | none => none
      | some stop => if pattern.accepts (slice text start stop) then some stop
          else backOff pattern text start floor fuel (stop - 1)
    else none

def validatedEnd (pattern : Pattern) (text : Str) (start stop : Nat) : Option Nat :=
  match pattern.validate with
  | none => if pattern.accepts (slice text start stop) then some stop else none
  | some _ => backOff pattern text start (start + max pattern.validateMinLength 1) (stop + 1) stop

/-- The text from `position` on after one pattern's pass, and how many matches it replaced. -/
def passFrom (pattern : Pattern) (placeholder text : Str) (protectTail : Bool) :
    Nat → Nat → Nat → Str × Nat
  | 0, position, _ => (text.drop position,0)
  | fuel+1, position, searchFrom =>
    if searchFrom ≤ text.length then
      match search pattern.expression text searchFrom with
      | none => (text.drop position,0)
      | some (start,stop) =>
        match validatedEnd pattern text start stop with
        | none => passFrom pattern placeholder text protectTail fuel position (start + 1)
        | some stop =>
          if protectTail && stop == text.length then
            passFrom pattern placeholder text protectTail fuel position (start + 1)
          else
            let later := passFrom pattern placeholder text protectTail fuel stop
              (if start < stop then stop else start + 1)
            (slice text position start ++ placeholder ++ later.1,later.2 + 1)
    else (text.drop position,0)

def pass (pattern : Pattern) (placeholder text : Str) (protectTail : Bool) : Str × Nat :=
  passFrom pattern placeholder text protectTail (text.length + 2) 0 0

/-- The text after the passes of all patterns, and the names recorded on the way. -/
def redact (placeholder : Str) (protectTail : Bool) : List Pattern → Str → Str × List Str
  | [], text => (text,[])
  | pattern::patterns, text =>
    let here := pass pattern placeholder text protectTail
    let later := redact placeholder protectTail patterns here.1
    (later.1,List.replicate here.2 pattern.name ++ later.2)

/-- The least start of an unfinished match of one pattern, or `earliest`. -/
def earliestUnfinished (text : Str) (earliest : Nat) (hits : List Hit) : Nat :=
  hits.foldl (fun earliest hit => if hit.isPartial ||
    hit.stop == text.length then min earliest hit.start else earliest) earliest

def holdbackIndex (patterns : List Pattern) (text : Str) : Nat :=
  patterns.foldl (fun earliest pattern => earliestUnfinished text earliest
    (finditer pattern.expression text)) text.length

def overflowCounter : Str := lit "overflow"

structure RedactionStats where
  counts : List (Str × Nat)
  charactersIn : Nat
  charactersOut : Nat
  maxHoldbackSeen : Nat
  suppressedCharacters : Nat
  deriving DecidableEq

def RedactionStats.empty : RedactionStats := ⟨[],0,0,0,0⟩

def RedactionStats.total (stats : RedactionStats) : Nat := (stats.counts.map Prod.snd).sum

def RedactionStats.record (stats : RedactionStats) (name : Str) : RedactionStats :=
  {stats with counts := Library.Dict.assign name ((stats.counts.lookup name).getD 0 + 1) stats.counts}

def RedactionStats.recordAll (stats : RedactionStats) (names : List Str) : RedactionStats :=
  names.foldl RedactionStats.record stats

/-- What the constructor fixes. -/
structure Options where
  classes : Classes
  patterns : List Pattern
  placeholder : Str
  maxHoldback : Nat

/-- `StreamRedactor(patterns)` without a ceiling of its own. -/
def Options.ofPatterns (classes : Classes) (patterns : List Pattern) : Options where
  classes := classes
  patterns := patterns
  placeholder := redactionPlaceholder
  maxHoldback := patterns.foldl (fun longest pattern => max longest pattern.maxLength) 0 + 8

def Options.default (classes : Classes) : Options := .ofPatterns classes (defaultPatterns classes)

structure StreamRedactor where
  buffer : Str
  suppressing : Bool
  stats : RedactionStats
  deriving DecidableEq

def StreamRedactor.new : StreamRedactor := ⟨[],false,.empty⟩

variable (options : Options)

/-- The rest of `text` behind a suppressed run, and the redactor that has counted what was dropped. -/
def StreamRedactor.dropSuppressedPrefix (self : StreamRedactor) (text : Str) :
    StreamRedactor × Str :=
  let consumed := (matchAt (overlongRun options.classes) text 0 text.length).getD 0
  let stats := {self.stats with suppressedCharacters := self.stats.suppressedCharacters + consumed}
  if consumed = text.length then ({self with stats},[])
  else ({self with suppressing := false,stats},text.drop consumed)

def StreamRedactor.failClosed (self : StreamRedactor) : StreamRedactor × Str :=
  let stats := self.stats.record overflowCounter
  (⟨[],true,{stats with suppressedCharacters := stats.suppressedCharacters + self.buffer.length}⟩,
    options.placeholder)

def StreamRedactor.finish (self : StreamRedactor) (emit : Str) : StreamRedactor × Str :=
  ({self with stats := {self.stats with
    maxHoldbackSeen := max self.stats.maxHoldbackSeen self.buffer.length
    charactersOut := self.stats.charactersOut + emit.length}},emit)

/-- What `feed` does with the text that suppression has left. -/
def StreamRedactor.absorb (self : StreamRedactor) (text : Str) : StreamRedactor × Str :=
  let redacted := redact options.placeholder true options.patterns (self.buffer ++ text)
  let split := holdbackIndex options.patterns redacted.1
  let held : StreamRedactor :=
    ⟨redacted.1.drop split,self.suppressing,self.stats.recordAll redacted.2⟩
  if options.maxHoldback < held.buffer.length then
    let failed := held.failClosed options
    failed.1.finish (redacted.1.take split ++ failed.2)
  else held.finish (redacted.1.take split)

def StreamRedactor.feed (self : StreamRedactor) (text : Str) : StreamRedactor × Str :=
  if text.isEmpty then (self,[])
  else
    let self := {self with stats := {self.stats with charactersIn := self.stats.charactersIn +
      text.length}}
    if self.suppressing then
      let dropped := self.dropSuppressedPrefix options text
      if dropped.2.isEmpty then dropped else dropped.1.absorb options dropped.2
    else self.absorb options text

def StreamRedactor.flush (self : StreamRedactor) : StreamRedactor × Str :=
  let remaining := redact options.placeholder false options.patterns self.buffer
  let stats := self.stats.recordAll remaining.2
  (⟨[],false,{stats with charactersOut := stats.charactersOut + remaining.1.length}⟩,remaining.1)

/-- The redactor after the chunks, and what feeding them gave. -/
def StreamRedactor.feedAll (self : StreamRedactor) : List Str → StreamRedactor × Str
  | [] => (self,[])
  | chunk::chunks =>
    let first := self.feed options chunk
    let later := first.1.feedAll chunks
    (later.1,first.2 ++ later.2)

def StreamRedactor.process (self : StreamRedactor) (chunks : List Str) : Str :=
  let fed := self.feedAll options chunks
  fed.2 ++ (fed.1.flush options).2

def redactText (text : Str) : Str := StreamRedactor.new.process options [text]

mutual
def redactLeaves : Value → Value
  | .str text => .str (redactText options text)
  | .list items => .list (redactItems items)
  | .dict fields => .dict (redactFields fields)
  | .null => .null
  | .bool value => .bool value
  | .int value => .int value
  | .float text => .float text
def redactItems : List Value → List Value
  | [] => []
  | item::items => redactLeaves item::redactItems items
def redactFields : List (Str × Value) → List (Str × Value)
  | [] => []
  | (key,value)::fields => (key,redactLeaves value)::redactFields fields
end

end QuilrMcp.Guardrail.Redactor
