import QuilrMcp.Library.JsonKeys
import QuilrMcp.McpGateway.Forwarding

/-! Whether two parsers read one body alike: the body that the gateway accepts, and the bytes that it sends. -/
namespace QuilrMcp.McpGateway.OneReading
open Library Library.Text
open Library.Json (Value Distinct allPairs firstPairs lastPairs)
open Forwarding (Understood Contacts allowedMessages)

private theorem duplicateKey_none (seen : List Str) (pairs : List (Str × Value)) :
    duplicateKey seen pairs = none ↔
    (pairs.map Prod.fst).Nodup ∧ ∀ key ∈ pairs.map Prod.fst, key ∉ seen := by
  induction pairs generalizing seen with
  | nil => simp [duplicateKey]
  | cons pair pairs ih =>
    rw [duplicateKey,List.map_cons,List.nodup_cons,List.forall_mem_cons]
    split_ifs with repeated
    · exact iff_of_false (by simp) (fun known => known.2.1 repeated)
    · rw [ih (pair.1::seen)]
      constructor
      · rintro ⟨distinct,fresh⟩
        refine ⟨⟨fun member => fresh _ member List.mem_cons_self,distinct⟩,repeated,?_⟩
        intro key member old
        exact fresh key member (List.mem_cons_of_mem _ old)
      · rintro ⟨⟨absent,distinct⟩,-,fresh⟩
        refine ⟨distinct,?_⟩
        intro key member old
        rcases List.mem_cons.mp old with rfl | old
        · exact absent member
        · exact fresh key member old

theorem rejectDuplicateKeys_iff (fields : List (Str × Value)) :
    rejectDuplicateKeys fields = .ok fields ↔ (fields.map Prod.fst).Nodup := by
  have fresh := duplicateKey_none [] fields
  simp only [List.not_mem_nil,not_false_eq_true,implies_true,and_true] at fresh
  rw [← fresh,rejectDuplicateKeys]
  cases duplicateKey [] fields <;> simp

section Readings
variable (tables : Unicode.Tables) (format : Json.FloatFormat) (config : Config)

/-- What a parser reads of bytes, the hook being what it makes of the pairs of an object. -/
def reading (hook : List (Str × Value) → Except Str (List (Str × Value))) (bytes : Bytes) :
    Option Value :=
  match Encoding.decodeDetected bytes with
  | none => none
  | some text => (Json.loads format hook text).toOption

/-- What policy decides on the messages of a document, or why it is refused. -/
def decisions (principal : Principal) (document : Value) :
    Except ParseFailure (List (Option Denial)) :=
  (parseDocument document).map (fun parsed =>
    parsed.messages.map (fun message =>
      evaluate tables principal message config.enforceMethodAllowlist))

/-- No object of the text repeats a key. -/
def RepeatsNoKey (bytes : Bytes) : Prop :=
  ∃ document, reading format allPairs bytes = some document ∧ Distinct document

/-- The bytes repeat no key, so the parsers for which the first and the last of a key counts read one value, on
which policy decides alike. -/
structure Unambiguous (sent : Bytes) : Prop where
  distinct : RepeatsNoKey format sent
  same : reading format firstPairs sent = reading format lastPairs sent
  decided : ∀ principal, (reading format firstPairs sent).map (decisions tables config principal) =
    (reading format lastPairs sent).map (decisions tables config principal)

structure ReadAlike (request : Request) : Prop where
  accepted : ∀ body parsed, (∀ byte ∈ body, byte < 0x100) →
    parsePayload tables format body = .ok parsed →
    RepeatsNoKey format body
  forwarded : ∀ sent, Contacts tables format config request sent →
    Unambiguous tables format config sent

/-- Where some messages are blocked, no object of the others has two keys that are one when a high surrogate
is joined to the low one behind it. -/
def Apart (request : Request) : Prop :=
  ∀ principal parsed, Understood tables format config request principal parsed →
    allowedMessages tables config principal parsed ≠ parsed.messages →
    ∀ message ∈ allowedMessages tables config principal parsed,
      Distinct (Json.joined (.dict message.raw))

variable {tables format config}

private theorem reading_loads {hook : List (Str × Value) → Except Str (List (Str × Value))}
    {bytes : Bytes} {text : Str} {document : Value}
    (decoded : Encoding.decodeDetected bytes = some text)
    (loaded : Json.loads format hook text = .ok document) :
    reading format hook bytes = some document := by
  rw [reading,decoded]
  simp only [loaded,Except.toOption]

theorem accepted_distinct {body : Bytes} {parsed : ParsedPayload}
    (octets : ∀ byte ∈ body, byte < 0x100) (ok : parsePayload tables format body = .ok parsed) :
    RepeatsNoKey format body := by
  obtain ⟨document,loaded,-⟩ := Forwarding.parsePayload_ok tables format body parsed ok
  have settled := (Forwarding.loadDocument_sound tables format body octets document loaded).2
  rw [loadDocument] at loaded
  split at loaded
  · contradiction
  · rename_i text decoded
    split at loaded
    · contradiction
    · rename_i value read
      cases loaded
      have every := Json.loads_settled format Forwarding.rejectDuplicateKeys_keeps
        ((Json.decode_ok_iff format _).mp read)
        (Json.settled_allPairs document)
      refine ⟨document,reading_loads decoded every,?_⟩
      exact Json.distinct_of_settled (fun fields => (rejectDuplicateKeys_iff fields).mp)
        document settled

theorem unambiguous_iff {sent : Bytes} :
    Unambiguous tables format config sent ↔ RepeatsNoKey format sent := by
  constructor
  · exact Unambiguous.distinct
  · intro once
    obtain ⟨document,read,distinct⟩ := once
    have known := read
    rw [reading] at read
    split at read
    · contradiction
    · rename_i text decoded
      have loaded : Json.loads format (ε := Str) allPairs text = .ok document := by
        cases result : Json.loads format (ε := Str) allPairs text with
        | error error =>
          rw [result] at read
          contradiction
        | ok value =>
          rw [result] at read
          rw [Option.some.inj read]
      obtain ⟨first,last⟩ := Json.loads_distinct format loaded distinct
      have same : reading format firstPairs sent = reading format lastPairs sent := by
        rw [reading_loads decoded first,reading_loads decoded last]
      exact ⟨⟨document,known,distinct⟩,same,fun principal => by rw [same]⟩

/-- A list of messages that was encoded again repeats a key where surrogates are joined to one. -/
theorem encoded_distinct (messages : List RpcMessage)
    (sound : ∀ message ∈ messages, Json.Sound format (.dict message.raw)) :
    RepeatsNoKey format
      (Json.dumps ⟨true,true⟩ (.list (messages.map (fun message => .dict message.raw)))) ↔
      ∀ message ∈ messages, Distinct (Json.joined (.dict message.raw)) := by
  have soundList : Json.Sound format (.list (messages.map (fun message => .dict message.raw))) := by
    simpa [Json.Sound,Json.soundItems_iff] using sound
  have loaded := Json.loads_dumps format (ε := Str) allPairs ⟨true,true⟩ _ soundList
  rw [Json.rebuild_allPairs] at loaded
  have read :=
    reading_loads (Encoding.decodeDetected_ascii _ (Json.dumps_printed format ⟨true,
      true⟩ rfl _ soundList)) loaded
  have each : Distinct (Json.joined (.list (messages.map (fun message => .dict message.raw)))) ↔
      ∀ message ∈ messages, Distinct (Json.joined (.dict message.raw)) := by
    rw [Json.joined,Distinct,Json.distinctItems_iff,Json.joinedItems_map,List.map_map]
    simp only [List.forall_mem_map,Function.comp_apply]
  rw [← each,RepeatsNoKey,read]
  constructor
  · rintro ⟨document,same,distinct⟩
    rwa [Option.some.inj same]
  · intro distinct
    exact ⟨_,rfl,distinct⟩

/-- What is accepted repeats no key, and neither do the bytes that are sent, unless a message is encoded again
in which two keys are joined to one. -/
theorem readAlike_iff (request : Request) :
    ReadAlike tables format config request ↔ Apart tables format config request := by
  constructor
  · intro one principal parsed understood blocked
    obtain ⟨resolved,body,read,ok⟩ := understood
    cases allowed : allowedMessages tables config principal parsed with
    | nil => exact List.forall_mem_nil _
    | cons first rest =>
      obtain ⟨each,unblocked | ⟨-,-,sends⟩⟩ :=
        Forwarding.forwardBody_cases tables format config principal body parsed first
        rest (Forwarding.readBoundedBody_octets request _ body read) ok allowed
      · exact absurd (allowed.trans unblocked.1) blocked
      · have contacts := (Forwarding.contacts_iff tables format config request _).mpr
          ⟨principal,body,parsed,first,rest,resolved,read,ok,allowed,sends⟩
        exact (encoded_distinct (first::rest) (fun message member => (each message member).2.1)).mp
          (one.forwarded _ contacts).distinct
  · intro apart
    refine ⟨fun body parsed octets ok => accepted_distinct octets ok,?_⟩
    intro sent contacts
    obtain ⟨principal,body,parsed,first,rest,resolved,read,ok,allowed,found⟩ :=
      (Forwarding.contacts_iff tables format config request sent).mp contacts
    have octets := Forwarding.readBoundedBody_octets request _ body read
    rw [unambiguous_iff]
    obtain ⟨each,⟨-,sends⟩ | ⟨blocked,-,sends⟩⟩ :=
      Forwarding.forwardBody_cases tables format config principal body parsed
      first rest octets ok allowed
    · obtain rfl := Option.some.inj (found.symm.trans sends)
      exact accepted_distinct octets ok
    · obtain rfl := Option.some.inj (found.symm.trans sends)
      apply (encoded_distinct (first::rest) (fun message member => (each message member).2.1)).mpr
      rw [← allowed]
      exact apart principal parsed ⟨resolved,body,read,ok⟩ (allowed ▸ blocked)

end Readings

/-- A batch of a `ping` with two keys, one of two surrogates in three octets each and one of the character that they
join to, and a method that no list knows. -/
def twinBody : Bytes :=
  lit "[\x7b\"jsonrpc\":\"2.0\",\"method\":\"ping\",\"params\":\x7b\"" ++
    [0xED,0xA0,0xBD,0xED,0xB8,0x80] ++ lit "\":1,\"" ++
    [0xF0,0x9F,0x98,0x80] ++ lit "\":2\x7d\x7d,\x7b\"jsonrpc\":\"2.0\",\"method\":\"nope\"\x7d]"

def twinRequest : Request :=
  ⟨some (lit "Bearer viewer-token-xyz789"),none,[twinBody],by decide +kernel⟩

private theorem twinRequest_parted :
    (match handleMcpPost Unicode.ascii .verbatim ⟨none,1048576,true,false⟩ twinRequest with
      | .contact sent _ _ _ =>
        decide ((reading .verbatim firstPairs sent).map (Json.dumps ⟨true,true⟩) ≠
          (reading .verbatim lastPairs sent).map (Json.dumps ⟨true,true⟩))
      | _ => false) = true := by decide +kernel

/-- The object that is sent has one key twice, with two values. -/
theorem twin_keys_sent :
    ¬ ∀ (tables : Unicode.Tables) (format : Json.FloatFormat) (config : Config) (request : Request) (sent : Bytes),
      Contacts tables format config request sent →
      reading format firstPairs sent = reading format lastPairs sent := by
  intro alike
  have parted := twinRequest_parted
  split at parted
  · rename_i sent denials allowed isBatch reply
    exact of_decide_eq_true parted (by rw [alike _ _ _ _ sent ⟨denials,allowed,isBatch,reply⟩])
  · contradiction

end QuilrMcp.McpGateway.OneReading
