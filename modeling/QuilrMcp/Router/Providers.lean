import QuilrMcp.Library.Json
import Mathlib.Tactic.Common

/-! One attempt against one provider, classified into an outcome the router can act on. What the
wire gives is the environment's; the request that is sent, the timeouts and the log are left out. -/
namespace QuilrMcp.Router.Providers
open Library.Text
open Library.Json (Value)

inductive Outcome
  | success
  | rateLimited
  | timeout
  | unavailable
  | clientError
  deriving DecidableEq, Repr

structure Provider where
  name : Str
  deriving DecidableEq

def classify (statusCode : Nat) : Outcome :=
  if statusCode = 429 then .rateLimited
  -- The credential is the gateway's own, so a refusal of it is not the caller's fault.
  else if statusCode = 401 ∨ statusCode = 403 then .unavailable
  else if 500 ≤ statusCode then .unavailable
  else if 400 ≤ statusCode then .clientError
  else .success

/-- What becomes of a request: no answer in time, no connection, an answer, or an exception that
the attempt does not turn into an outcome, a cancellation among them. -/
inductive Wire (α : Type)
  | timedOut
  | unreachable
  | answered (statusCode : Nat) (content : α)
  | raised

/-- A streaming response whose body has not been read. -/
structure Response where
  contentType : Option Str
  chunks : List Bytes

/-- A provider in its turn, with what it would give to a request and to a streaming one. An answer
that is not JSON has the content null. -/
structure Contact where
  provider : Provider
  elapsedMs : Int
  posted : Wire Value
  streamed : Wire Response

structure Attempt where
  provider : Provider
  outcome : Outcome
  statusCode : Option Nat
  body : Value
  elapsedMs : Int

def Outcome.succeeded (outcome : Outcome) : Bool := outcome == .success

def Outcome.shouldFailover (outcome : Outcome) : Bool :=
  outcome == .rateLimited || outcome == .timeout || outcome == .unavailable

/-- `none` where an exception leaves the call. -/
def callProvider (contact : Contact) : Option Attempt :=
  match contact.posted with
  | .timedOut => some ⟨contact.provider,.timeout,none,.null,contact.elapsedMs⟩
  | .unreachable => some ⟨contact.provider,.unavailable,none,.null,contact.elapsedMs⟩
  | .answered statusCode body => some ⟨contact.provider,classify statusCode,some statusCode,body,
      contact.elapsedMs⟩
  | .raised => none

structure StreamAttempt where
  provider : Provider
  outcome : Outcome
  statusCode : Option Nat
  response : Option Response
  elapsedMs : Int

/-- What the router records of a streaming attempt. -/
def StreamAttempt.attempt (self : StreamAttempt) : Attempt :=
  ⟨self.provider,self.outcome,self.statusCode,.null,self.elapsedMs⟩

/-- A response that is no success is closed here. -/
def openProviderStream (contact : Contact) : Option StreamAttempt :=
  match contact.streamed with
  | .timedOut => some ⟨contact.provider,.timeout,none,none,contact.elapsedMs⟩
  | .unreachable => some ⟨contact.provider,.unavailable,none,none,contact.elapsedMs⟩
  | .answered statusCode response =>
    if classify statusCode = .success then
      some ⟨contact.provider,.success,some statusCode,some response,contact.elapsedMs⟩
    else some ⟨contact.provider,classify statusCode,some statusCode,none,contact.elapsedMs⟩
  | .raised => none

theorem shouldFailover_iff (outcome : Outcome) :
    outcome.shouldFailover = true ↔ outcome ≠ .success ∧ outcome ≠ .clientError := by
  cases outcome <;> decide

theorem classify_clientError {statusCode : Nat} (client : classify statusCode = .clientError) :
    400 ≤ statusCode ∧ statusCode < 500 := by
  unfold classify at client
  split_ifs at client with limited refused failed other
  omega

theorem callProvider_clientError {contact : Contact} {attempt : Attempt}
    (called : callProvider contact = some attempt) (client : attempt.outcome = .clientError) :
    ∃ statusCode, attempt.statusCode = some statusCode ∧
      400 ≤ statusCode ∧ statusCode < 500 := by
  unfold callProvider at called
  split at called
  · cases called
    contradiction
  · cases called
    contradiction
  · cases called
    exact ⟨_,rfl,classify_clientError client⟩
  · contradiction

theorem openProviderStream_clientError {contact : Contact} {attempt : StreamAttempt}
    (opened : openProviderStream contact = some attempt) (client : attempt.outcome = .clientError) :
    ∃ statusCode, attempt.statusCode = some statusCode ∧ 400 ≤ statusCode ∧ statusCode < 500 := by
  unfold openProviderStream at opened
  split at opened
  · cases opened
    contradiction
  · cases opened
    contradiction
  · split_ifs at opened
    · cases opened
      contradiction
    · cases opened
      exact ⟨_,rfl,classify_clientError client⟩
  · contradiction

/-- A success holds its response open and nothing else does. -/
theorem openProviderStream_response {contact : Contact} {attempt : StreamAttempt}
    (opened : openProviderStream contact = some attempt) :
    attempt.response.isSome ↔ attempt.outcome = .success := by
  unfold openProviderStream at opened
  split at opened
  · cases opened
    simp
  · cases opened
    simp
  · split_ifs at opened with good
    · cases opened
      simp
    · cases opened
      simp [good]
  · contradiction

/-- A streaming attempt holds the response of a success, or none. -/
theorem openProviderStream_cases {contact : Contact} {attempt : StreamAttempt}
    (called : openProviderStream contact = some attempt) :
    (∃ statusCode response, contact.streamed = .answered statusCode response ∧
      classify statusCode = .success ∧
      attempt.response = some response) ∨
    (attempt.response = none ∧
      ∀ statusCode response, contact.streamed = .answered statusCode response →
      classify statusCode ≠ .success) := by
  unfold openProviderStream at called
  split at called
  · rename_i wire
    cases called
    exact Or.inr ⟨rfl,by simp [wire]⟩
  · rename_i wire
    cases called
    exact Or.inr ⟨rfl,by simp [wire]⟩
  · rename_i statusCode response wire
    split_ifs at called with good
    · cases called
      exact Or.inl ⟨statusCode,response,wire,good,rfl⟩
    · cases called
      refine Or.inr ⟨rfl,fun other _ same => ?_⟩
      rw [wire] at same
      cases same
      exact good
  · contradiction

end QuilrMcp.Router.Providers
