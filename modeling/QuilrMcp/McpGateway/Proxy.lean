import QuilrMcp.McpGateway.Audit
import QuilrMcp.Router.Headers

/-! The request that goes downstream. The identity of the caller is what the gateway says it is. -/
namespace QuilrMcp.McpGateway.Proxy
open Library Library.Text
open Router.Headers (lower lower_lower incoming carried)
open Audit (Transport)

/-- `_HOP_BY_HOP` -/
def hopByHop : List Str :=
  [lit "connection",lit "keep-alive",lit "proxy-authenticate",lit "proxy-authorization",lit "te",
    lit "trailer",lit "transfer-encoding",lit "upgrade",lit "content-length",lit "host"]

def forwardedUser : Str := lit "x-forwarded-user"
def forwardedRole : Str := lit "x-forwarded-role"

/-- `_STRIP_FROM_CLIENT` -/
def stripFromClient : List Str := lit "authorization"::forwardedUser::forwardedRole::hopByHop

/-- The headers but for those that are stripped. A name that is given twice has the last value. -/
def kept (strip : List Str) (headers : List (Str × Str)) : List (Str × Str) :=
  Dict.ofPairs (headers.filter (fun header => !strip.contains (lower header.1)))

def buildDownstreamHeaders (headers : List (Str × Str)) (principal : Principal) :
    List (Str × Str) :=
  Dict.assign forwardedRole principal.role (Dict.assign forwardedUser principal.subject
    (kept stripFromClient headers))

/-- A request as the framework hands it on. A header is text in Latin-1. -/
structure HttpRequest where
  headers : List (Str × Str)
  chunks : List Bytes
  octets : ∀ chunk ∈ chunks, ∀ byte ∈ chunk, byte < 0x100

inductive Method
  | post
  | passthrough (method : Transport)

/-- What the client library is given to send. It adds headers that are about the connection. -/
structure Outgoing where
  method : Str
  headers : List (Str × Str)
  body : Option Bytes

/-- `request.headers.get("authorization")` -/
def authorization (headers : List (Str × Str)) : Option Str :=
  (incoming headers).lookup (lit "authorization")

def contentLength : Str := lit "content-length"

/-- `str.isdigit` holds of superscripts too. -/
def isdigit (text : Str) : Bool :=
  !text.isEmpty && text.all (fun code => Json.isDigit code || [0xB2,0xB3,0xB9].contains code)

inductive Declared
  | nothing
  | length (value : Nat)
  | valueError

/-- The length that a request declares. `int` raises on a superscript and on too many digits. -/
def declared (headers : List (Str × Str)) : Declared :=
  match (incoming headers).lookup contentLength with
  | none => .nothing
  | some text =>
    if !isdigit text then .nothing
    else if text.all Json.isDigit && text.length ≤ Json.intMaxStrDigits then
      .length (Json.ofDigits text)
    else .valueError

def HttpRequest.request (request : HttpRequest) : Option Request :=
  match declared request.headers with
  | .nothing => some ⟨authorization request.headers,none,request.chunks,request.octets⟩
  | .length value => some ⟨authorization request.headers,some value,request.chunks,request.octets⟩
  | .valueError => none

section Sending
variable (tables : Unicode.Tables) (format : Json.FloatFormat) (config : Config)

/-- What `handle_mcp_post` and `handle_mcp_passthrough` send. -/
def outgoing (method : Method) (request : HttpRequest) : Option Outgoing :=
  match resolvePrincipal tables config.tokens (authorization request.headers) with
  | .error _ => none
  | .ok principal =>
    let headers := buildDownstreamHeaders (incoming request.headers) principal
    match method with
    | .passthrough method => some ⟨method.text,headers,none⟩
    | .post =>
      match request.request with
      | none => none
      | some own =>
        match handleMcpPost tables format config own with
        | .contact sent _ _ _ => some ⟨lit "POST",headers,some sent⟩
        | _ => none

end Sending

/-- Names in lower case, each of them once. -/
structure Plain (headers : List (Str × Str)) : Prop where
  distinct : (headers.map Prod.fst).Nodup
  spelled : ∀ header ∈ headers, lower header.1 = header.1

theorem filter_carried {headers : List (Str × Str)}
    (spelled : ∀ header ∈ headers, lower header.1 = header.1) (name : Str) :
    carried name headers = (headers.filter (fun header => lower name == header.1)).map
      Prod.snd := by
  rw [carried]
  congr 1
  apply List.filter_congr
  intro header member
  rw [spelled header member,Bool.eq_iff_iff,decide_eq_true_iff,beq_iff_eq]
  exact eq_comm

theorem Plain.carried {headers : List (Str × Str)} (plain : Plain headers) (name : Str) :
    carried name headers = (headers.lookup (lower name)).toList := by
  rw [filter_carried plain.spelled,Dict.filter_lookup (lower name) plain.distinct]

theorem Plain.assign {headers : List (Str × Str)} (plain : Plain headers) {name : Str}
    (spelled : lower name = name) (value : Str) : Plain (Dict.assign name value headers) := by
  refine ⟨Dict.assign_distinct plain.distinct,?_⟩
  intro header member
  rcases Dict.mem_assign member with rfl | before
  · exact spelled
  · exact plain.spelled header before

theorem incoming_spelled (headers : List (Str × Str)) :
    ∀ header ∈ incoming headers, lower header.1 = header.1 := by
  intro header member
  obtain ⟨original,-,rfl⟩ := List.mem_map.mp member
  exact lower_lower original.1

section Kept
variable (strip : List Str) {headers : List (Str × Str)}
    (spelled : ∀ header ∈ headers, lower header.1 = header.1)
include spelled

theorem kept_plain : Plain (kept strip headers) := by
  refine ⟨(Dict.ofPairs_keys _).1,?_⟩
  intro header member
  exact spelled header (List.mem_filter.mp (Dict.mem_ofPairs member)).1

theorem carried_kept (name : Str) : carried name (kept strip headers) =
    if lower name ∈ strip then [] else (carried name headers).getLast?.toList := by
  rw [(kept_plain strip spelled).carried,kept,Dict.ofPairs_last,List.filter_filter,
    filter_carried spelled]
  split_ifs with stripped
  · rw [List.filter_eq_nil_iff.mpr]
    · rfl
    · intro header member found
      obtain ⟨own,allowed⟩ := Bool.and_eq_true_iff.mp found
      rw [spelled header member,← eq_of_beq own] at allowed
      simp [stripped] at allowed
  · congr 3
    apply List.filter_congr
    intro header member
    cases own : lower name == header.1 with
    | false => rfl
    | true =>
      rw [spelled header member,← eq_of_beq own,Bool.true_and]
      simpa using stripped

end Kept

/-- What the downstream server gets under a name. -/
def received (principal : Principal) (headers : List (Str × Str)) (name : Str) : List Str :=
  if lower name = forwardedUser then [principal.subject]
  else if lower name = forwardedRole then [principal.role]
  else if lower name ∈ stripFromClient then []
  else (carried name (incoming headers)).getLast?.toList

theorem carried_built (headers : List (Str × Str)) (principal : Principal) (name : Str) :
    carried name (buildDownstreamHeaders (incoming headers) principal) =
      received principal headers name := by
  have plain := kept_plain stripFromClient (incoming_spelled headers)
  have named := plain.assign (show lower forwardedUser = forwardedUser by decide) principal.subject
  have both := named.assign (show lower forwardedRole = forwardedRole by decide) principal.role
  rw [buildDownstreamHeaders,both.carried,received]
  split_ifs with user role stripped
  · rw [user,Dict.lookup_assign_other _ _ _ _ (by decide),Dict.lookup_assign]
    rfl
  · rw [role,Dict.lookup_assign]
    rfl
  · rw [Dict.lookup_assign_other _ _ _ _ role,Dict.lookup_assign_other _ _ _ _ user,← plain.carried,
      carried_kept _ (incoming_spelled headers),if_pos stripped]
  · rw [Dict.lookup_assign_other _ _ _ _ role,Dict.lookup_assign_other _ _ _ _ user,← plain.carried,
      carried_kept _ (incoming_spelled headers),if_neg stripped]

/-- The headers that a client writes to no effect. -/
def immaterial : List Str := forwardedUser::forwardedRole::hopByHop.erase contentLength

/-- The headers but for those of the names. -/
def apart (names : List Str) (headers : List (Str × Str)) : List (Str × Str) :=
  (incoming headers).filter (fun header => !names.contains (lower header.1))

theorem lookup_filter {keeps : Str → Bool} {name : Str} (kept : keeps name = true)
    (headers : List (Str × Str)) :
    (headers.filter (fun header => keeps header.1)).lookup name = headers.lookup name := by
  induction headers with
  | nil => rfl
  | cons header headers ih =>
    rw [List.filter_cons,List.lookup_cons]
    cases own : name == header.1 with
    | true => rw [← eq_of_beq own,if_pos kept,List.lookup_cons,own]
    | false =>
      split_ifs
      · rw [List.lookup_cons,own,ih]
      · exact ih

theorem apart_lookup {names : List Str} {name : Str} (free : names.contains (lower name) = false)
    (headers : List (Str × Str)) :
    (incoming headers).lookup name = (apart names headers).lookup name :=
  (@lookup_filter (fun name => !names.contains (lower name)) _ (by rw [free]; rfl)
    (incoming headers)).symm

theorem apart_built {names : List Str} (stripped : ∀ name ∈ names, name ∈ stripFromClient)
    (headers : List (Str × Str)) (principal : Principal) :
    buildDownstreamHeaders (apart names headers) principal =
      buildDownstreamHeaders (incoming headers) principal := by
  have twice : (apart names headers).filter (fun header =>
    !stripFromClient.contains (lower header.1)) =
      (incoming headers).filter (fun header => !stripFromClient.contains (lower header.1)) := by
    rw [apart,List.filter_filter]
    apply List.filter_congr
    intro header _
    cases strip : stripFromClient.contains (lower header.1) with
    | true => rfl
    | false =>
      have passing : names.contains (lower header.1) = false := by
        rw [Bool.eq_false_iff] at strip ⊢
        intro listed
        rw [List.contains_iff_mem] at listed
        exact strip (List.contains_iff_mem.mpr (stripped _ listed))
      rw [passing]
      rfl
  rw [buildDownstreamHeaders,buildDownstreamHeaders,kept,kept,twice]

section Identity
variable (tables : Unicode.Tables) (format : Json.FloatFormat) (config : Config)

/-- Headers that agree but for an identity or a connection send the same. -/
theorem outgoing_immaterial (method : Method) (request : HttpRequest) {headers : List (Str × Str)}
    (same : apart immaterial headers = apart immaterial request.headers) :
    outgoing tables format config method {request with headers := headers} =
      outgoing tables format config method request := by
  have bearer : authorization headers = authorization request.headers := by
    rw [authorization,@apart_lookup immaterial _ (by decide),same,← apart_lookup (by decide)]
    rfl
  have length : declared headers = declared request.headers := by
    rw [declared,declared,@apart_lookup immaterial _ (by decide),same,← apart_lookup (by decide)]
  have built (principal : Principal) : buildDownstreamHeaders (incoming headers) principal =
      buildDownstreamHeaders (incoming request.headers) principal := by
    rw [← @apart_built immaterial (by decide),same,apart_built (by decide)]
  rw [outgoing,outgoing]
  simp only [HttpRequest.request,bearer,length,built]

theorem request_authorization {request : HttpRequest} {own : Request}
    (given : request.request = some own) :
    own.authorization = authorization request.headers ∧ own.chunks = request.chunks := by
  unfold HttpRequest.request at given
  split at given
  all_goals cases given
  all_goals exact ⟨rfl,rfl⟩

/-- A length that is declared has no part in what is sent, if anything is. -/
theorem contact_undeclared {first second : Request}
    (bearer : first.authorization = second.authorization) (chunks : first.chunks = second.chunks)
    {sent sent' : Bytes} (contacts : Forwarding.Contacts tables format config first sent)
    (contacts' : Forwarding.Contacts tables format config second sent') : sent = sent' := by
  obtain ⟨principal,body,parsed,_,_,resolved,read,ok,allowed,found⟩ :=
    (Forwarding.contacts_iff tables format config first sent).mp contacts
  obtain ⟨principal',body',parsed',_,_,resolved',read',ok',allowed',found'⟩ :=
    (Forwarding.contacts_iff tables format config second sent').mp contacts'
  rw [bearer] at resolved
  obtain rfl := Except.ok.inj (resolved.symm.trans resolved')
  obtain rfl : body = body' := by
    rw [Library.Bounded.readBounded_flatten read,Library.Bounded.readBounded_flatten read',chunks]
  obtain rfl := Except.ok.inj (ok.symm.trans ok')
  obtain ⟨rfl,rfl⟩ := List.cons.inj (allowed.symm.trans allowed')
  exact Option.some.inj (found.symm.trans found')

theorem outgoing_cases {method : Method} {request : HttpRequest} {out : Outgoing}
    (posts : outgoing tables format config method request = some out) :
    ∃ principal, resolvePrincipal tables config.tokens (authorization request.headers) =
      .ok principal ∧
      out.headers = buildDownstreamHeaders (incoming request.headers) principal ∧
      ((∃ transport, method = .passthrough transport ∧ out.method = transport.text ∧
        out.body = none) ∨
        ∃ own sent, method = .post ∧ request.request = some own ∧
        Forwarding.Contacts tables format config own sent ∧
          out.method = lit "POST" ∧ out.body = some sent) := by
  rw [outgoing] at posts
  split at posts
  · cases posts
  · rename_i principal resolved
    refine ⟨principal,resolved,?_⟩
    dsimp only at posts
    split at posts
    · cases posts
      exact ⟨rfl,Or.inl ⟨_,rfl,rfl,rfl⟩⟩
    · split at posts
      · cases posts
      · rename_i own given
        split at posts
        · rename_i sent denials allowed isBatch contacted
          cases posts
          exact ⟨rfl,Or.inr ⟨own,sent,rfl,given,⟨denials,allowed,isBatch,contacted⟩,rfl,rfl⟩⟩
        · cases posts

theorem outgoing_undeclared {method : Method} {request : HttpRequest} {headers : List (Str × Str)}
    (same : apart (contentLength::immaterial) headers =
      apart (contentLength::immaterial) request.headers) {out out' : Outgoing}
    (posts : outgoing tables format config method request = some out)
    (posts' : outgoing tables format config method {request with headers := headers} = some out') :
    out' = out := by
  have bearer : authorization headers = authorization request.headers := by
    rw [authorization,@apart_lookup (contentLength::immaterial) _ (by decide),same,
      ← apart_lookup (by decide)]
    rfl
  obtain ⟨principal,resolved,built,kinds⟩ := outgoing_cases tables format config posts
  obtain ⟨principal',resolved',built',kinds'⟩ := outgoing_cases tables format config posts'
  rw [show authorization ({request with headers := headers} : HttpRequest).headers =
    authorization request.headers from
    bearer] at resolved'
  obtain rfl := Except.ok.inj (resolved.symm.trans resolved')
  have named : out'.headers = out.headers := by
    rw [built,built',← @apart_built (contentLength::immaterial) (by decide),same,
      apart_built (by decide)]
  obtain ⟨text,_,body⟩ := out
  obtain ⟨text',_,body'⟩ := out'
  obtain rfl := named
  rcases kinds with ⟨transport,rfl,rfl,rfl⟩ | ⟨own,sent,rfl,given,contacts,rfl,rfl⟩
  · rcases kinds' with ⟨other,shape,rfl,rfl⟩ | ⟨_,_,shape,-⟩
    · cases shape
      rfl
    · cases shape
  · rcases kinds' with ⟨_,shape,-⟩ | ⟨own',sent',-,given',contacts',rfl,rfl⟩
    · cases shape
    · have first := request_authorization given
      have second := request_authorization given'
      obtain rfl :=
        contact_undeclared tables format config (second.1.trans (bearer.trans first.1.symm))
        (second.2.trans first.2.symm) contacts' contacts
      rfl

/-- Whatever a client writes, what goes downstream names the owner of its token, once and as policy knew it, keeps the
token back, and its body is read as messages that policy allows to that identity, unless a batch with a blocked message
holds two surrogates that are joined when it is encoded again. Headers of the client's that name an identity of their own
or are about the connection make no difference, and the length it declares makes none to what is sent if anything is. -/
theorem identity_asserted (method : Method) (request : HttpRequest) {out : Outgoing}
    (posts : outgoing tables format config method request = some out) :
    (∃ token principal, extractBearerToken tables (authorization request.headers) = .ok token ∧
      (token,principal) ∈ tokenTable tables config.tokens ∧
      (∀ name, carried name out.headers = received principal request.headers name) ∧
      ∀ body, out.body = some body →
        (∀ own, request.request = some own → Forwarding.Unjoined tables format config own) →
        ∃ parsed, parsePayload tables format body = .ok parsed ∧
          ∀ message ∈ parsed.messages,
            evaluate tables principal message config.enforceMethodAllowlist = none) ∧
    (∀ headers, apart immaterial headers = apart immaterial request.headers →
      outgoing tables format config method {request with headers := headers} = some out) ∧
    ∀ headers, apart (contentLength::immaterial) headers =
      apart (contentLength::immaterial) request.headers →
      ∀ other, outgoing tables format config method {request with headers := headers} = some other →
      other = out := by
  obtain ⟨principal,resolved,built,kinds⟩ := outgoing_cases tables format config posts
  obtain ⟨token,bearer,listed⟩ := resolvePrincipal_owner resolved
  refine ⟨⟨token,principal,bearer,listed,fun name => ?_,?_⟩,fun headers same => ?_,
    fun headers same other posts' => ?_⟩
  · rw [built,carried_built]
  · intro body sends unjoined
    rcases kinds with ⟨_,-,-,nothing⟩ | ⟨own,sent,-,given,contacts,-,posted⟩
    · rw [nothing] at sends
      cases sends
    · obtain rfl := Option.some.inj (sends.symm.trans posted)
      obtain ⟨principal',parsed,understood,ok⟩ :=
        Forwarding.contacts_parsed tables format config (unjoined own given) contacts
      have owner := understood.1
      rw [(request_authorization given).1] at owner
      obtain rfl := Except.ok.inj (resolved.symm.trans owner)
      exact ⟨_,ok,fun message member => Option.isNone_iff_eq_none.mp (List.mem_filter.mp member).2⟩
  · rw [outgoing_immaterial tables format config method request same,posts]
  · exact outgoing_undeclared tables format config same posts posts'

/-- A viewer who says to be an admin. -/
def pretender : HttpRequest :=
  ⟨[(lit "Authorization",lit "Bearer viewer-token-xyz789"),(lit "X-Forwarded-Role",lit "admin"),
      (lit "Content-Length",lit "193"),(lit "Accept",lit "*/*")],
    Accounting.callsRequest.chunks,Accounting.callsRequest.octets⟩

private theorem pretender_unjoined : ∀ own, pretender.request = some own →
    Forwarding.Unjoined Unicode.ascii .verbatim Accounting.standard own := by
  rintro own given
  have declares : pretender.request =
      some ⟨some (lit "Bearer viewer-token-xyz789"),some 193,Accounting.callsRequest.chunks,
        Accounting.callsRequest.octets⟩ := by rfl
  obtain rfl := Option.some.inj (declares.symm.trans given)
  exact Audit.callsBody_unjoined (by decide +kernel)

theorem identity_asserted_pretender : ∃ out body token principal parsed,
    outgoing Unicode.ascii .verbatim Accounting.standard .post pretender = some out ∧
    out.body = some body ∧
    (token,principal) ∈ tokenTable Unicode.ascii Accounting.standard.tokens ∧
    (∀ name, carried name out.headers = received principal pretender.headers name) ∧
    parsePayload Unicode.ascii .verbatim body = .ok parsed ∧
    (∀ message ∈ parsed.messages,
      evaluate Unicode.ascii principal message Accounting.standard.enforceMethodAllowlist = none) ∧
    outgoing Unicode.ascii .verbatim Accounting.standard .post
      {pretender with headers := pretender.headers.eraseIdx 1} = some out := by
  have sent : ((outgoing Unicode.ascii .verbatim Accounting.standard .post pretender).bind
    Outgoing.body).isSome = true := by
    decide +kernel
  obtain ⟨body,bodied⟩ := Option.isSome_iff_exists.mp sent
  obtain ⟨out,posts,filled⟩ := Option.bind_eq_some_iff.mp bodied
  obtain ⟨⟨token,principal,-,listed,names,read⟩,immaterial,-⟩ :=
    identity_asserted Unicode.ascii .verbatim Accounting.standard .post pretender posts
  obtain ⟨parsed,ok,allowed⟩ := read body filled pretender_unjoined
  exact ⟨out,body,token,principal,parsed,posts,filled,listed,names,ok,allowed,
    immaterial _ (by decide)⟩

end Identity

end QuilrMcp.McpGateway.Proxy
