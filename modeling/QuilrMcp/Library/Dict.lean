import Mathlib.Data.List.Induction
import Mathlib.Data.List.Nodup
import Mathlib.Tactic.Tauto

/-! Dictionaries that keep the order in which their keys were first set. -/
namespace QuilrMcp.Library.Dict

variable {κ α : Type} [BEq κ]

/-- Set a key: in its place when it is there, at the end when it is new. -/
def assign (key : κ) (value : α) : List (κ × α) → List (κ × α)
  | [] => [(key,value)]
  | (name,old)::rest => if name == key then (key,value)::rest else (name,old)::assign key value rest

def ofPairs (pairs : List (κ × α)) : List (κ × α) :=
  pairs.foldl (fun fields pair => assign pair.1 pair.2 fields) []

theorem mem_assign {key : κ} {value : α} {fields : List (κ × α)} {field : κ × α}
    (member : field ∈ assign key value fields) :
    field = (key,value) ∨ field ∈ fields := by
  induction fields with
  | nil => exact Or.inl (List.mem_singleton.mp member)
  | cons other rest ih =>
    rw [assign] at member
    split_ifs at member with same
    · rcases List.mem_cons.mp member with rfl | later
      · exact Or.inl rfl
      · exact Or.inr (List.mem_cons_of_mem _ later)
    · rcases List.mem_cons.mp member with rfl | later
      · exact Or.inr List.mem_cons_self
      · exact (ih later).imp_right (List.mem_cons_of_mem _)

/-- A dictionary of pairs has no field that is none of the pairs. -/
theorem mem_ofPairs {pairs : List (κ × α)} {field : κ × α} (member : field ∈ ofPairs pairs) :
    field ∈ pairs := by
  have from_ (more fields : List (κ × α)) (member : field ∈ more.foldl (fun fields pair =>
    assign pair.1 pair.2 fields) fields) :
      field ∈ fields ∨ field ∈ more := by
    induction more generalizing fields with
    | nil => exact Or.inl member
    | cons pair more ih =>
      rcases ih _ member with assigned | later
      · rcases mem_assign assigned with rfl | kept
        · exact Or.inr List.mem_cons_self
        · exact Or.inl kept
      · exact Or.inr (List.mem_cons_of_mem _ later)
  exact (from_ pairs [] member).resolve_left (List.not_mem_nil)

variable [LawfulBEq κ]

@[simp] theorem lookup_assign (key : κ) (value : α) (fields : List (κ × α)) :
    (assign key value fields).lookup key = some value := by
  induction fields with
  | nil => simp [assign]
  | cons field rest ih =>
    obtain ⟨name,old⟩ := field
    simp only [assign]
    split_ifs with same
    · simp
    · have other : (key == name) = false :=
        beq_eq_false_iff_ne.mpr (fun equal => same (by simp [equal]))
      rw [List.lookup_cons,other]
      exact ih

theorem lookup_assign_other (key other : κ) (value : α) (fields : List (κ × α))
    (apart : other ≠ key) :
    (assign key value fields).lookup other = fields.lookup other := by
  have differs : (other == key) = false := beq_eq_false_iff_ne.mpr apart
  induction fields with
  | nil => simp [assign,List.lookup_cons,differs]
  | cons field rest ih =>
    obtain ⟨name,old⟩ := field
    simp only [assign]
    split_ifs with same
    · rw [List.lookup_cons,List.lookup_cons,beq_iff_eq.mp same,differs]
    · rw [List.lookup_cons,List.lookup_cons,ih]

/-- A key that is there is set where it first stands. -/
theorem assign_at {key : κ} {value : α} {fields : List (κ × α)}
    (found : fields.lookup key = some value) :
    fields[(fields.map Prod.fst).idxOf key]? = some (key,value) ∧
      ∀ other, assign key other fields = fields.set ((fields.map Prod.fst).idxOf key)
        (key,other) := by
  induction fields with
  | nil => contradiction
  | cons field rest ih =>
    obtain ⟨name,old⟩ := field
    rw [List.lookup_cons] at found
    rw [List.map_cons,List.idxOf_cons]
    by_cases same : name = key
    · subst same
      simp only [beq_self_eq_true,Option.some.injEq] at found
      simp [assign,found]
    · have other : (key == name) = false := beq_eq_false_iff_ne.mpr (Ne.symm same)
      have other' : (name == key) = false := beq_eq_false_iff_ne.mpr same
      rw [other] at found
      simp only [other',cond_false,List.getElem?_cons_succ,List.set_cons_succ]
      refine ⟨(ih found).1,fun new => ?_⟩
      rw [assign,other',if_neg Bool.false_ne_true,(ih found).2]

/-- Two dictionaries of the same keys have a value at the same of them, at the same position. -/
theorem lookup_aligned {key : κ} {value : α} {fields fields' : List (κ × α)}
    (names : fields.map Prod.fst = fields'.map Prod.fst) (found : fields'.lookup key = some value) :
    ∃ other i, fields.lookup key = some other ∧ fields[i]? = some (key,other) ∧
    fields'[i]? = some (key,value) ∧
      (∀ new, assign key new fields = fields.set i (key,new)) ∧
      ∀ new, assign key new fields' = fields'.set i (key,new) := by
  obtain ⟨here,set⟩ := assign_at found
  have present : key ∈ fields.map Prod.fst := by
    rw [names]
    exact List.mem_map_of_mem (List.mem_of_getElem? here)
  obtain ⟨field,member,rfl⟩ := List.mem_map.mp present
  obtain ⟨other,also⟩ :=
    Option.isSome_iff_exists.mp (List.lookup_isSome_iff.mpr ⟨field,member,beq_self_eq_true _⟩)
  obtain ⟨there,set'⟩ := assign_at also
  rw [names] at there set'
  exact ⟨other,_,also,there,here,set',set⟩

theorem assign_ne_nil (key : κ) (value : α) (fields : List (κ × α)) :
    assign key value fields ≠ [] := by
  intro empty
  have present := lookup_assign key value fields
  rw [empty] at present
  contradiction

theorem assign_ne (key : κ) (value : α) (fields : List (κ × α))
    (absent : fields.lookup key = none) :
    assign key value fields ≠ fields := by
  intro same
  have present := lookup_assign key value fields
  rw [same,absent] at present
  contradiction

/-- Where a key is there already, its field is replaced and no other. -/
theorem assign_split {key : κ} {value : α} {fields : List (κ × α)}
    (found : fields.lookup key = some value) :
    ∃ front back, fields = front ++ (key,value)::back ∧
    ∀ other, assign key other fields = front ++ (key,other)::back := by
  induction fields with
  | nil => contradiction
  | cons field fields ih =>
    obtain ⟨name,old⟩ := field
    rw [List.lookup_cons] at found
    cases same : key == name with
    | true =>
      obtain rfl := eq_of_beq same
      rw [same] at found
      obtain rfl := Option.some.inj found
      exact ⟨[],fields,rfl,fun other => by rw [assign,if_pos same]; rfl⟩
    | false =>
      rw [same] at found
      obtain ⟨front,back,shape,assigned⟩ := ih found
      have other : ¬ (name == key) = true := fun equal => by simp [eq_of_beq equal] at same
      refine ⟨(name,old)::front,back,by rw [shape]; rfl,fun other' => ?_⟩
      rw [assign,if_neg other,assigned]
      rfl

theorem assign_new (key : κ) (value : α) (fields : List (κ × α))
    (absent : key ∉ fields.map Prod.fst) :
    assign key value fields = fields ++ [(key,value)] := by
  induction fields with
  | nil => rfl
  | cons field rest ih =>
    simp only [List.map_cons,List.mem_cons,not_or] at absent
    have other : ¬ (field.1 == key) = true := fun equal => absent.1 (beq_iff_eq.mp equal).symm
    rw [assign,if_neg other,ih absent.2,List.cons_append]

theorem lookup_none_iff {key : κ} {fields : List (κ × α)} :
    fields.lookup key = none ↔ key ∉ fields.map Prod.fst := by
  rw [List.lookup_eq_none_iff]
  constructor
  · intro apart member
    obtain ⟨field,listed,rfl⟩ := List.mem_map.mp member
    have other := apart field listed
    simp at other
  · intro absent field listed
    have apart : key ≠ field.1 := by
      rintro rfl
      exact absent (List.mem_map_of_mem listed)
    simpa using apart

/-- Under distinct keys a pair is found by its key. -/
theorem lookup_mem {key : κ} {value : α} {fields : List (κ × α)}
    (distinct : (fields.map Prod.fst).Nodup) (member : (key,value) ∈ fields) :
    fields.lookup key = some value := by
  induction fields with
  | nil => contradiction
  | cons field fields ih =>
    obtain ⟨absent,distinct⟩ := List.nodup_cons.mp distinct
    rw [List.lookup_cons]
    rcases List.mem_cons.mp member with rfl | later
    · simp
    · have apart : key ≠ field.1 := by
        rintro rfl
        exact absent (List.mem_map.mpr ⟨_,later,rfl⟩)
      rw [beq_eq_false_iff_ne.mpr apart]
      exact ih distinct later

theorem assign_absent (key : κ) (value : α) (fields : List (κ × α))
    (absent : fields.lookup key = none) :
    assign key value fields = fields ++ [(key,value)] := by
  apply assign_new
  exact lookup_none_iff.mp absent

theorem assign_keys (key : κ) (value : α) (fields : List (κ × α)) :
    (assign key value fields).map Prod.fst = fields.map Prod.fst ∨
      (key ∉ fields.map Prod.fst ∧
        (assign key value fields).map Prod.fst = fields.map Prod.fst ++ [key]) := by
  cases found : fields.lookup key with
  | some old =>
    obtain ⟨front,back,shape,assigned⟩ := assign_split found
    rw [assigned,shape]
    simp
  | none =>
    right
    constructor
    · exact lookup_none_iff.mp found
    · rw [assign_absent key value fields found,List.map_append,List.map_singleton]

theorem assign_distinct {key : κ} {value : α} {fields : List (κ × α)}
    (distinct : (fields.map Prod.fst).Nodup) :
    ((assign key value fields).map Prod.fst).Nodup := by
  rcases assign_keys key value fields with same | ⟨absent,more⟩
  · rw [same]
    exact distinct
  · rw [more]
    apply List.nodup_append.mpr
    refine ⟨distinct,List.nodup_singleton key,?_⟩
    intro name member other last equal
    rw [List.mem_singleton.mp last] at equal
    exact absent (equal ▸ member)

theorem mem_assign_keys {key name : κ} {value : α} {fields : List (κ × α)} :
    name ∈ (assign key value fields).map Prod.fst ↔ name = key ∨ name ∈ fields.map Prod.fst := by
  have own : key ∈ (assign key value fields).map Prod.fst := by
    have found := lookup_assign key value fields
    obtain ⟨front,back,shape,_⟩ := assign_split found
    rw [shape]
    simp
  rcases assign_keys key value fields with same | ⟨_,more⟩
  · rw [same] at own ⊢
    constructor
    · exact Or.inr
    · rintro (rfl | member)
      · exact own
      · exact member
  · rw [more,List.mem_append,List.mem_singleton,or_comm]

/-- Under distinct keys a key has one value at most. -/
theorem filter_lookup (key : κ) {fields : List (κ × α)} (distinct : (fields.map Prod.fst).Nodup) :
    (fields.filter (fun field => key == field.1)).map Prod.snd = (fields.lookup key).toList := by
  induction fields with
  | nil => rfl
  | cons field fields ih =>
    obtain ⟨absent,distinct⟩ := List.nodup_cons.mp distinct
    rw [List.lookup_cons]
    cases same : key == field.1 with
    | false => rw [List.filter_cons_of_neg (by simp [same]),ih distinct]
    | true =>
      have none_ : fields.filter (fun other => key == other.1) = [] := by
        apply List.filter_eq_nil_iff.mpr
        intro other member equal
        rw [← eq_of_beq same,eq_of_beq equal] at absent
        exact absent (List.mem_map_of_mem member)
      rw [List.filter_cons_of_pos (by simpa using same),none_]
      rfl

/-- A dictionary of pairs has each of their keys once. -/
theorem ofPairs_keys (pairs : List (κ × α)) : ((ofPairs pairs).map Prod.fst).Nodup ∧
    ∀ name, name ∈ (ofPairs pairs).map Prod.fst ↔ name ∈ pairs.map Prod.fst := by
  have from_ (more fields : List (κ × α)) (distinct : (fields.map Prod.fst).Nodup) :
      ((more.foldl (fun fields pair => assign pair.1 pair.2 fields) fields).map Prod.fst).Nodup ∧
        ∀ name, name ∈ (more.foldl (fun fields pair => assign pair.1 pair.2 fields) fields).map
          Prod.fst ↔
          name ∈ fields.map Prod.fst ∨ name ∈ more.map Prod.fst := by
    induction more generalizing fields with
    | nil => simpa using distinct
    | cons pair more ih =>
      obtain ⟨kept,keys⟩ := ih (assign pair.1 pair.2 fields) (assign_distinct distinct)
      refine ⟨kept,?_⟩
      intro name
      rw [List.foldl_cons,keys,mem_assign_keys,List.map_cons,List.mem_cons]
      tauto
  simpa [ofPairs] using from_ pairs [] List.nodup_nil

/-- A pair is found by its key where no other has it. -/
theorem ofPairs_lookup {pairs : List (κ × α)} {pair : κ × α} (member : pair ∈ pairs)
    (only : ∀ other ∈ pairs, other.1 = pair.1 → other = pair) :
    (ofPairs pairs).lookup pair.1 = some pair.2 := by
  obtain ⟨distinct,keys⟩ := ofPairs_keys pairs
  obtain ⟨field,listed,same⟩ := List.mem_map.mp ((keys pair.1).mpr (List.mem_map_of_mem member))
  obtain rfl := only field (mem_ofPairs listed) same
  exact lookup_mem distinct listed

theorem ofPairs_distinct (pairs : List (κ × α)) (distinct : (pairs.map Prod.fst).Nodup) :
    ofPairs pairs = pairs := by
  have from_ (more fields : List (κ × α)) (distinct : ((fields ++ more).map Prod.fst).Nodup) :
      more.foldl (fun fields pair => assign pair.1 pair.2 fields) fields = fields ++ more := by
    induction more generalizing fields with
    | nil => rw [List.foldl_nil,List.append_nil]
    | cons pair more ih =>
      have absent : pair.1 ∉ fields.map Prod.fst := by
        intro member
        rw [List.map_append,List.nodup_append] at distinct
        exact distinct.2.2 _ member pair.1 (by simp) rfl
      rw [List.foldl_cons,assign_new _ _ _ absent,ih]
      · rw [List.append_assoc,List.singleton_append]
      · rwa [List.append_assoc,List.singleton_append]
  exact from_ pairs [] distinct

/-- A key has the value of its last pair. -/
theorem ofPairs_last (pairs : List (κ × α)) (key : κ) : (ofPairs pairs).lookup key =
    ((pairs.filter (fun pair => key == pair.1)).map Prod.snd).getLast? := by
  induction pairs using List.reverseRecOn with
  | nil => rfl
  | append_singleton pairs pair ih =>
    have last : ofPairs (pairs ++ [pair]) = assign pair.1 pair.2 (ofPairs pairs) := by
      rw [ofPairs,List.foldl_append]
      rfl
    rw [last,List.filter_append,List.map_append]
    by_cases same : key = pair.1
    · have own : [pair].filter (fun pair => key == pair.1) = [pair] := by simp [same]
      rw [own,same,lookup_assign,List.map_singleton,List.getLast?_concat]
    · have none_ : [pair].filter (fun pair => key == pair.1) = [] := by simp [same]
      rw [none_,List.map_nil,List.append_nil,lookup_assign_other _ _ _ _ same,ih]

/-- The first pair with each key. -/
def firsts : List (κ × α) → List (κ × α)
  | [] => []
  | pair::pairs => pair::(firsts pairs).filter (fun other => !other.1 == pair.1)

theorem firsts_distinct (pairs : List (κ × α)) (distinct : (pairs.map Prod.fst).Nodup) :
    firsts pairs = pairs := by
  induction pairs with
  | nil => rfl
  | cons pair pairs ih =>
    obtain ⟨absent,distinct⟩ := List.nodup_cons.mp distinct
    rw [firsts,ih distinct,List.filter_eq_self.mpr]
    intro other member
    rw [Bool.not_eq_true',beq_eq_false_iff_ne]
    rintro same
    exact absent (same ▸ List.mem_map_of_mem member)

end QuilrMcp.Library.Dict
