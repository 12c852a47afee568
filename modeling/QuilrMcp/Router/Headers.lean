import QuilrMcp.Library.Dict
import QuilrMcp.Library.Unicode

/-! The headers of the request that is sent to a provider. Header names are ASCII tokens, so their
lower case is the ASCII one; two of them name one header where these are the same. -/
namespace QuilrMcp.Router.Headers
open Library Library.Text

def lower (name : Str) : Str := name.map Unicode.asciiLower

/-- `_DROP_HEADERS` -/
def dropHeaders : List Str :=
  [lit "host",lit "content-length",lit "connection",lit "transfer-encoding",lit "keep-alive",
    lit "authorization",lit "x-api-key"]

/-- The headers of a request as the framework hands them on. -/
def incoming (sent : List (Str × Str)) : List (Str × Str) :=
  sent.map (fun header => (lower header.1,header.2))

def forwarded (sent : List (Str × Str)) : List (Str × Str) :=
  Dict.ofPairs ((incoming sent).filter (fun header => !dropHeaders.contains (lower header.1)))

/-- What a `Provider` holds of its credential. -/
structure Credential where
  apiKey : Option Str
  apiKeyHeader : Str := lit "x-api-key"

def Credential.authHeaders (provider : Credential) : List (Str × Str) :=
  match provider.apiKey with
  | none => []
  | some [] => []
  | some apiKey => [(provider.apiKeyHeader,apiKey)]

/-- `{**headers, **provider.auth_headers()}`, in `call_provider` and in `open_provider_stream`. -/
def outbound (headers : List (Str × Str)) (provider : Credential) : List (Str × Str) :=
  provider.authHeaders.foldl (fun headers header => Dict.assign header.1 header.2 headers) headers

/-- The values that a request carries for a header. Names that differ in case alone are sent as two of them. -/
def carried (name : Str) (headers : List (Str × Str)) : List Str :=
  (headers.filter (fun header => lower header.1 = lower name)).map Prod.snd

theorem lower_lower (name : Str) : lower (lower name) = lower name := by
  have again (code : Nat) : Unicode.asciiLower (Unicode.asciiLower code) =
    Unicode.asciiLower code := by
    unfold Unicode.asciiLower
    split_ifs <;> omega
  rw [lower,lower,List.map_map]
  apply List.map_congr_left
  intro code _
  exact again code

/-- Every forwarded name is in lower case, and a client's header is among them unless it is dropped. -/
theorem forwarded_names (sent : List (Str × Str)) : ((forwarded sent).map Prod.fst).Nodup ∧
      ∀ name, name ∈ (forwarded sent).map Prod.fst ↔
        name ∉ dropHeaders ∧ ∃ header ∈ sent, lower header.1 = name := by
  obtain ⟨distinct,keys⟩ := Dict.ofPairs_keys
    ((incoming sent).filter (fun header => !dropHeaders.contains (lower header.1)))
  refine ⟨distinct,?_⟩
  intro name
  rw [forwarded,keys]
  constructor
  · intro member
    obtain ⟨header,kept,rfl⟩ := List.mem_map.mp member
    obtain ⟨arrived,undropped⟩ := List.mem_filter.mp kept
    obtain ⟨original,present,rfl⟩ := List.mem_map.mp arrived
    rw [lower_lower] at undropped
    exact ⟨by simpa using undropped,original,present,rfl⟩
  · rintro ⟨undropped,original,present,rfl⟩
    refine List.mem_map.mpr ⟨(lower original.1,original.2),?_,rfl⟩
    refine List.mem_filter.mpr ⟨List.mem_map_of_mem present,?_⟩
    rw [lower_lower]
    simpa using undropped

theorem forwarded_lower (sent : List (Str × Str)) :
    ∀ header ∈ forwarded sent, lower header.1 = header.1 := by
  intro header member
  obtain ⟨_,original,_,same⟩ := ((forwarded_names sent).2 header.1).mp (List.mem_map_of_mem member)
  rw [← same,lower_lower]

section Shadowing
variable (sent : List (Str × Str)) (name : Str)

private theorem carried_forwarded :
    carried name (forwarded sent) = [] ↔ lower name ∉ (forwarded sent).map Prod.fst := by
  rw [carried,List.map_eq_nil_iff,List.filter_eq_nil_iff]
  constructor
  · intro none_ member
    obtain ⟨header,present,same⟩ := List.mem_map.mp member
    exact none_ header present (by simp [same,lower_lower])
  · intro absent header present same
    apply absent
    rw [← of_decide_eq_true same,forwarded_lower sent header present]
    exact List.mem_map_of_mem present

private theorem carried_assigned (value : Str) (spelled : lower name = name) :
    carried name (Dict.assign name value (forwarded sent)) = [value] := by
  have distinct := @Dict.assign_distinct _ _ _ _ name value _ (forwarded_names sent).1
  have once := Dict.filter_lookup name distinct
  rw [Dict.lookup_assign] at once
  rw [carried,← show (some value).toList = [value] from rfl,← once]
  congr 1
  apply List.filter_congr
  intro header member
  have own : lower header.1 = header.1 := by
    rcases Dict.mem_assign member with rfl | before
    · exact spelled
    · exact forwarded_lower sent header before
  rw [own,spelled]
  by_cases same : header.1 = name
  · simp [same]
  · have other : (name == header.1) = false := by simpa using Ne.symm same
    rw [other]
    simpa using same

private theorem carried_beside (value : Str) (spelled : lower name ≠ name) :
    carried name (Dict.assign name value (forwarded sent)) =
      carried name (forwarded sent) ++ [value] := by
  have absent : name ∉ (forwarded sent).map Prod.fst := by
    intro member
    obtain ⟨header,present,rfl⟩ := List.mem_map.mp member
    exact spelled (forwarded_lower sent header present)
  rw [Dict.assign_new _ _ _ absent]
  simp [carried]

/-- The configured spelling is the one in lower case, or its header is dropped, or the client sends none. -/
def Unshadowed : Prop :=
  lower name = name ∨ lower name ∈ dropHeaders ∨ ∀ header ∈ sent, lower header.1 ≠ lower name

end Shadowing

/-- A request carries the provider's credential, and nothing else under its name, exactly where the client
cannot send the same name in another spelling. -/
theorem credential_carried_iff (sent : List (Str × Str)) (provider : Credential) (apiKey : Str)
    (configured : provider.apiKey = some apiKey) (usable : apiKey ≠ []) :
    carried provider.apiKeyHeader (outbound (forwarded sent) provider) = [apiKey] ↔
    Unshadowed sent provider.apiKeyHeader := by
  obtain ⟨key,header⟩ := provider
  obtain rfl : key = some apiKey := configured
  have merged : outbound (forwarded sent) ⟨some apiKey,header⟩ =
    Dict.assign header apiKey (forwarded sent) := by
    cases apiKey with
    | nil => contradiction
    | cons code apiKey => rfl
  rw [merged]
  by_cases spelled : lower header = header
  · exact iff_of_true (carried_assigned sent header apiKey spelled) (Or.inl spelled)
  · have alone : carried header (forwarded sent) ++ [apiKey] = [apiKey] ↔
      carried header (forwarded sent) = [] := by
      simp
    rw [carried_beside sent header apiKey spelled,alone,carried_forwarded,(forwarded_names sent).2]
    simp only [Unshadowed,spelled,false_or]
    by_cases dropped : lower header ∈ dropHeaders
    · simp [dropped]
    · simp [dropped]

theorem credential_carried_iff_accept :
    carried (lit "Api-Key") (outbound (forwarded [(lit "Accept",lit "*/*")]) ⟨some (lit "upstream"),
      lit "Api-Key"⟩) =
      [lit "upstream"] ↔ Unshadowed [(lit "Accept",lit "*/*")] (lit "Api-Key") :=
  credential_carried_iff [(lit "Accept",lit "*/*")] ⟨some (lit "upstream"),lit "Api-Key"⟩
    (lit "upstream") rfl (by decide)

/-- A client sends the header of a provider that is configured as `Api-Key`. -/
theorem client_value_beside :
    ¬ ∀ (sent : List (Str × Str)) (provider : Credential) (apiKey : Str), provider.apiKey =
      some apiKey → apiKey ≠ [] →
      carried provider.apiKeyHeader (outbound (forwarded sent) provider) = [apiKey] := by
  intro exact_
  have one := exact_ [(lit "api-key",lit "callers")] ⟨some (lit "upstream"),lit "Api-Key"⟩
    (lit "upstream") rfl (by decide)
  exact absurd one (by decide)

end QuilrMcp.Router.Headers
