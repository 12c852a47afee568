import QuilrMcp.McpGateway.Policy

/-! Methods and tool names are folded apart: a method is trimmed and case-folded, a tool name loses its
invisible characters anywhere and its marks. What that difference lets through. -/
namespace QuilrMcp.McpGateway.Folding
open Library Library.Text

/-- What the Unicode tables say of ASCII, of white space, and of case folding. -/
structure Documented (tables : Unicode.Tables) : Prop where
  nfd_ascii : ∀ text, Unicode.IsAscii text → tables.nfd text = text
  nfc_ascii : ∀ text, Unicode.IsAscii text → tables.nfc text = text
  visible_ascii : ∀ code, 32 < code → code < 127 → isInvisible tables code = false
  unmarked_ascii : ∀ code, code < 128 → tables.category code ≠ .mn
  space_invisible : ∀ code, tables.isSpace code = true → isInvisible tables code = true
  invisible_casefold : ∀ text, ∀ code ∈ text, isInvisible tables code = true →
    code ∈ tables.casefold text

section
variable (tables : Unicode.Tables)

/-- The text without what marks its letters. -/
def dropMarks (text : Str) : Str :=
  tables.nfc ((tables.nfd text).filter (fun code => tables.category code ≠ .mn))

theorem normalizeToolName_eq (name : Str) : normalizeToolName tables name =
    dropMarks tables (tables.casefold ((tables.nfkc name).filter (fun code =>
      !isInvisible tables code))) := rfl

/-- Trimming leaves no invisible character and case folding no mark. -/
def Bare (method : Str) : Prop :=
  (∀ code ∈ tables.strip (tables.nfkc method), isInvisible tables code = false) ∧
    dropMarks tables (normalizeMethod tables method) = normalizeMethod tables method

theorem strip_parts (text : Str) : ∃ front back, text = front ++ (tables.strip text ++ back) ∧
    (∀ code ∈ front, tables.isSpace code = true) ∧ ∀ code ∈ back, tables.isSpace code = true := by
  have ends (part : Str) : ∀ code ∈ part.takeWhile tables.isSpace, tables.isSpace code = true :=
    fun code member => List.mem_takeWhile_imp member
  refine ⟨text.takeWhile tables.isSpace,
    ((text.dropWhile tables.isSpace).reverse.takeWhile tables.isSpace).reverse,?_,
    ends text,fun code member => ends _ code (List.mem_reverse.mp member)⟩
  rw [Unicode.Tables.strip,← List.reverse_append,List.takeWhile_append_dropWhile,
    List.reverse_reverse,List.takeWhile_append_dropWhile]

variable {tables} (documented : Documented tables)
include documented

theorem dropMarks_ascii {text : Str} (ascii : Unicode.IsAscii text) :
    dropMarks tables text = text := by
  have unmarked : text.filter (fun code => tables.category code ≠ .mn) = text := by
    apply List.filter_eq_self.mpr
    intro code member
    exact decide_eq_true (documented.unmarked_ascii code (ascii code member))
  rw [dropMarks,documented.nfd_ascii text ascii,unmarked,documented.nfc_ascii text ascii]

theorem normalizeToolName_ascii {name : Str} (printed : ∀ code ∈ name, 32 < code ∧ code < 127) :
    normalizeToolName tables name = name.map Unicode.asciiLower := by
  have ascii : Unicode.IsAscii name :=
    fun code member => Nat.lt_trans (printed code member).2 (by decide)
  have visible : name.filter (fun code => !isInvisible tables code) = name := by
    apply List.filter_eq_self.mpr
    intro code member
    rw [documented.visible_ascii code (printed code member).1 (printed code member).2]
    rfl
  have lowered : Unicode.IsAscii (name.map Unicode.asciiLower) := by
    intro code member
    obtain ⟨origin,listed,rfl⟩ := List.mem_map.mp member
    have bound := printed origin listed
    rw [Unicode.asciiLower]
    split_ifs <;> omega
  rw [normalizeToolName_eq,tables.nfkc_ascii name ascii,visible,tables.casefold_ascii name ascii,
    dropMarks_ascii documented lowered]

/-- Of the methods that are known only `tools/call` folds to it. -/
theorem known_folded {method : Str} (known : method ∈ knownMethods)
    (folded : normalizeToolName tables method = toolsCall) :
    method = toolsCall := by
  have all : ∀ method ∈ knownMethods, (∀ code ∈ method, 32 < code ∧ code < 127) ∧
      (method.map Unicode.asciiLower = toolsCall → method = toolsCall) := by decide
  obtain ⟨printed,only⟩ := all method known
  rw [normalizeToolName_ascii documented printed] at folded
  exact only folded

/-- A method that folds as a tool name to `tools/call` also does as a method where it is bare. -/
theorem normalizeMethod_iff {method : Str} (folded : normalizeToolName tables method = toolsCall) :
    normalizeMethod tables method = toolsCall ↔ Bare tables method := by
  constructor
  · intro same
    refine ⟨fun code member => ?_,?_⟩
    · by_contra invisible
      rw [Bool.not_eq_false] at invisible
      have kept := documented.invisible_casefold _ code member invisible
      rw [show tables.casefold (tables.strip (tables.nfkc method)) = toolsCall from same] at kept
      have printed : ∀ code ∈ toolsCall, 32 < code ∧ code < 127 := by decide
      rw [documented.visible_ascii code (printed code kept).1 (printed code kept).2] at invisible
      contradiction
    · rw [same]
      apply dropMarks_ascii documented
      unfold Unicode.IsAscii
      decide
  · rintro ⟨visible,unmarked⟩
    obtain ⟨front,back,shape,before,behind⟩ := strip_parts tables (tables.nfkc method)
    have removed (part : Str) (spaces : ∀ code ∈ part, tables.isSpace code = true) :
        part.filter (fun code => !isInvisible tables code) = [] := by
      apply List.filter_eq_nil_iff.mpr
      intro code member
      rw [documented.space_invisible code (spaces code member)]
      decide
    have kept : (tables.strip (tables.nfkc method)).filter (fun code => !isInvisible tables code) =
        tables.strip (tables.nfkc method) := by
      apply List.filter_eq_self.mpr
      intro code member
      rw [visible code member]
      rfl
    have filtered : (tables.nfkc method).filter (fun code => !isInvisible tables code) =
      tables.strip (tables.nfkc method) := by
      conv_lhs => rw [shape]
      rw [List.filter_append,List.filter_append,removed front before,removed back behind,kept,
        List.append_nil,List.nil_append]
    rw [normalizeToolName_eq,filtered] at folded
    rw [← unmarked]
    exact folded

/-- The call of a privileged tool under a method that folds as a tool name to `tools/call` is denied a
caller who is not admin where the list of methods is enforced or the method is bare, and nowhere else. -/
theorem folded_call_denied_iff (principal : Principal) (viewer : principal.isAdmin = false)
    (message : RpcMessage) (name : Str) (named : message.toolName = some name)
    (privileged : isPrivilegedTool tables name = true)
    (folded : normalizeToolName tables message.method = toolsCall) (enforceAllowlist : Bool) :
    (∃ denial, evaluate tables principal message enforceAllowlist = some denial) ↔
      enforceAllowlist = true ∨ Bare tables message.method := by
  have params : ∃ fields, message.params = some (.dict fields) := by
    unfold RpcMessage.toolName at named
    split at named
    · rename_i fields shape
      exact ⟨fields,shape⟩
    · contradiction
  obtain ⟨fields,params⟩ := params
  rw [← normalizeMethod_iff documented folded]
  simp only [evaluate,params,named,privileged,viewer,Bool.not_false,Bool.and_self,if_true]
  by_cases listed : message.method ∈ knownMethods
  · have exact_ : normalizeMethod tables message.method = toolsCall := by
      rw [known_folded documented listed folded,toolsCall_normalized]
    simp only [listed,exact_,decide_true,Bool.not_true,Bool.and_false,Bool.false_eq_true,if_false,
      ne_eq,not_true]
    exact iff_of_true ⟨_,rfl⟩ (Or.inr trivial)
  · simp only [listed,decide_false,Bool.not_false,Bool.and_true]
    cases enforceAllowlist with
    | true => exact iff_of_true ⟨_,if_pos rfl⟩ (Or.inl rfl)
    | false =>
      simp only [Bool.false_eq_true,if_false,false_or]
      split_ifs with other
      · exact iff_of_false (by rintro ⟨_,⟨⟩⟩) other
      · exact iff_of_true ⟨_,rfl⟩ (not_not.mp other)

end

/-- The tables of ASCII, with the zero-width space as the format character that it is. -/
def zeroWidth : Unicode.Tables :=
  {Unicode.ascii with category := fun code => if code = 0x200B then .cf
    else Unicode.ascii.category code}

theorem zeroWidth_documented : Documented zeroWidth where
  nfd_ascii _ _ := rfl
  nfc_ascii _ _ := rfl
  visible_ascii code low high := by
    have apart : code ≠ 0x200B := by omega
    have printed : ¬ (code < 32 ∨ code = 127) := by omega
    simp [isInvisible,zeroWidth,Unicode.ascii,apart,printed,show code ≠ 32 by omega]
  unmarked_ascii code small := by
    have apart : code ≠ 0x200B := by omega
    simp only [zeroWidth,Unicode.ascii,apart,if_false]
    split_ifs <;> decide
  space_invisible code space := by
    simp only [zeroWidth,Unicode.ascii,Unicode.isAsciiSpace,Bool.or_eq_true,Bool.and_eq_true,
      decide_eq_true_eq] at space
    have apart : code ≠ 0x200B := by omega
    simp only [isInvisible,zeroWidth,Unicode.ascii,apart,if_false]
    by_cases control : code < 32 ∨ code = 127
    · rw [if_pos control]
    · rw [if_neg control,if_pos (show code = 32 by omega)]
  invisible_casefold text code member invisible := by
    refine List.mem_map.mpr ⟨code,member,?_⟩
    by_contra other
    have upper : 65 ≤ code ∧ code ≤ 90 := by
      by_contra outside
      exact other (if_neg outside)
    have apart : code ≠ 0x200B := by omega
    have printed : ¬ (code < 32 ∨ code = 127) := by omega
    simp [isInvisible,zeroWidth,Unicode.ascii,apart,printed,show code ≠ 32 by omega] at invisible

/-- A viewer's call of a privileged tool under the given method. -/
def viewerCall (method : Str) : RpcMessage :=
  ⟨method,some (.dict [(lit "name",.str (lit "admin_reset_key"))]),.int 1,true,[]⟩

def analyst : Principal := ⟨lit "analyst@example.com",lit "viewer"⟩

theorem trimmed_call_denied :
    (∃ denial, evaluate zeroWidth analyst (viewerCall (lit " Tools/Call")) false = some denial) ↔
      false = true ∨ Bare zeroWidth (lit " Tools/Call") :=
  folded_call_denied_iff zeroWidth_documented analyst (by decide) (viewerCall (lit " Tools/Call"))
    (lit "admin_reset_key") rfl
    (by decide) (by decide) false

/-- A zero-width space within the method: as a tool name it would fold to `tools/call`. -/
theorem zero_width_allowed : ¬ (isPrivilegedTool zeroWidth (lit "admin_reset_key") = true →
      normalizeToolName zeroWidth (lit "tools" ++ [0x200B] ++ lit "/call") = toolsCall →
      ∃ denial, evaluate zeroWidth analyst (viewerCall (lit "tools" ++ [0x200B] ++ lit "/call"))
        false = some denial) := by
  intro denied
  obtain ⟨denial,decision⟩ := denied (by decide) (by decide)
  have allowed : evaluate zeroWidth analyst (viewerCall (lit "tools" ++ [0x200B] ++ lit "/call"))
    false = none := by decide
  rw [allowed] at decision
  contradiction

end QuilrMcp.McpGateway.Folding
