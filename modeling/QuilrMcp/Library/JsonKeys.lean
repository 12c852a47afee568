import QuilrMcp.Library.Dict
import QuilrMcp.Library.JsonReading

/-! Repeated keys. A text in which no object repeats a key is read alike by every reader that differs
from the others in what it makes of a repeated one. -/
namespace QuilrMcp.Library.Json
open Text

mutual
/-- No object in the value has a key twice. -/
def Distinct : Value → Prop
  | .list items => DistinctItems items
  | .dict fields => (fields.map Prod.fst).Nodup ∧ DistinctFields fields
  | .null => True
  | .bool _ => True
  | .int _ => True
  | .float _ => True
  | .str _ => True
def DistinctItems : List Value → Prop
  | [] => True
  | item::items => Distinct item ∧ DistinctItems items
def DistinctFields : List (Str × Value) → Prop
  | [] => True
  | (_,value)::fields => Distinct value ∧ DistinctFields fields
end

theorem distinctItems_iff (items : List Value) :
    DistinctItems items ↔ ∀ item ∈ items, Distinct item := by
  induction items with
  | nil => simp [DistinctItems]
  | cons item items ih => simp [DistinctItems,ih]

theorem distinctFields_iff (fields : List (Str × Value)) :
    DistinctFields fields ↔ ∀ field ∈ fields, Distinct field.2 := by
  induction fields with
  | nil => simp [DistinctFields]
  | cons field fields ih => simp [DistinctFields,ih]

theorem lookup_first {fields : List (Str × Value)} (distinct : (fields.map Prod.fst).Nodup)
    (key : Str) :
    lookup key fields = fields.lookup key := by
  induction fields with
  | nil => rfl
  | cons field fields ih =>
    obtain ⟨name,value⟩ := field
    obtain ⟨absent,distinct⟩ := List.nodup_cons.mp distinct
    rw [lookup,ih distinct,List.lookup_cons]
    by_cases same : name = key
    · subst same
      have none : fields.lookup name = none := Dict.lookup_none_iff.mpr absent
      simp [none]
    · simp [same,show (key == name) = false from beq_eq_false_iff_ne.mpr (Ne.symm same)]

mutual
/-- The value with the surrogates joined in every string of it, keys included. -/
def joined : Value → Value
  | .str text => .str (joinSurrogates text)
  | .list items => .list (joinedItems items)
  | .dict fields => .dict (joinedFields fields)
  | .null => .null
  | .bool value => .bool value
  | .int value => .int value
  | .float text => .float text
def joinedItems : List Value → List Value
  | [] => []
  | item::items => joined item::joinedItems items
def joinedFields : List (Str × Value) → List (Str × Value)
  | [] => []
  | (key,value)::fields => (joinSurrogates key,joined value)::joinedFields fields
end

theorem joinedItems_map (items : List Value) : joinedItems items = items.map joined := by
  induction items with
  | nil => rfl
  | cons item items ih => rw [joinedItems,ih,List.map_cons]

section Readers
variable {ε : Type}

/-- The reader that keeps every pair. -/
def allPairs (pairs : List (Str × Value)) : Except ε (List (Str × Value)) := .ok pairs

/-- The reader for which the first pair with a key counts. -/
def firstPairs (pairs : List (Str × Value)) : Except ε (List (Str × Value)) :=
  .ok (Dict.firsts pairs)

/-- The reader for which the last one counts. -/
def lastPairs (pairs : List (Str × Value)) : Except ε (List (Str × Value)) :=
  .ok (Dict.ofPairs pairs)

theorem allPairs_keeps : Keeps (ε := ε) allPairs := fun _ _ hooked => (Except.ok.inj hooked).symm

variable (format : FloatFormat) {hook hook' : List (Str × Value) → Except ε (List (Str × Value))}

mutual
/-- A hook that takes fields with distinct keys as they are takes what repeats no key. -/
theorem settled_of_distinct (takes : ∀ fields : List (Str × Value), (fields.map Prod.fst).Nodup →
    hook fields = .ok fields) :
    (value : Value) → Distinct value → Settled hook value
  | .null, _ => trivial
  | .bool _, _ => trivial
  | .int _, _ => trivial
  | .float _, _ => trivial
  | .str _, _ => trivial
  | .list items, distinct => settledItems_of_distinct takes items distinct
  | .dict fields, distinct =>
    ⟨takes fields distinct.1,settledFields_of_distinct takes fields distinct.2⟩
theorem settledItems_of_distinct
    (takes : ∀ fields : List (Str × Value), (fields.map Prod.fst).Nodup →
      hook fields = .ok fields) :
    (items : List Value) → DistinctItems items → SettledItems hook items
  | [], _ => trivial
  | item::items, distinct =>
    ⟨settled_of_distinct takes item distinct.1,settledItems_of_distinct takes items distinct.2⟩
theorem settledFields_of_distinct
    (takes : ∀ fields : List (Str × Value), (fields.map Prod.fst).Nodup →
      hook fields = .ok fields) :
    (fields : List (Str × Value)) → DistinctFields fields → SettledFields hook fields
  | [], _ => trivial
  | (_,value)::fields, distinct =>
    ⟨settled_of_distinct takes value distinct.1,settledFields_of_distinct takes fields distinct.2⟩
end

mutual
/-- What a hook that refuses repeated keys takes repeats none. -/
theorem distinct_of_settled (refuses : ∀ fields : List (Str × Value), hook fields = .ok fields →
    (fields.map Prod.fst).Nodup) :
    (value : Value) → Settled hook value → Distinct value
  | .null, _ => trivial
  | .bool _, _ => trivial
  | .int _, _ => trivial
  | .float _, _ => trivial
  | .str _, _ => trivial
  | .list items, settled => distinctItems_of_settled refuses items settled
  | .dict fields, settled =>
    ⟨refuses fields settled.1,distinctFields_of_settled refuses fields settled.2⟩
theorem distinctItems_of_settled (refuses : ∀ fields : List (Str × Value), hook fields =
    .ok fields → (fields.map Prod.fst).Nodup) :
    (items : List Value) → SettledItems hook items → DistinctItems items
  | [], _ => trivial
  | item::items, settled =>
    ⟨distinct_of_settled refuses item settled.1,distinctItems_of_settled refuses items settled.2⟩
theorem distinctFields_of_settled (refuses : ∀ fields : List (Str × Value), hook fields =
    .ok fields → (fields.map Prod.fst).Nodup) :
    (fields : List (Str × Value)) → SettledFields hook fields → DistinctFields fields
  | [], _ => trivial
  | (_,value)::fields, settled =>
    ⟨distinct_of_settled refuses value settled.1,distinctFields_of_settled refuses fields settled.2⟩
end

mutual
theorem settled_allPairs : (value : Value) → Settled (ε := ε) allPairs value
  | .null => trivial
  | .bool _ => trivial
  | .int _ => trivial
  | .float _ => trivial
  | .str _ => trivial
  | .list items => settledItems_allPairs items
  | .dict fields => ⟨rfl,settledFields_allPairs fields⟩
theorem settledItems_allPairs : (items : List Value) → SettledItems (ε := ε) allPairs items
  | [] => trivial
  | item::items => ⟨settled_allPairs item,settledItems_allPairs items⟩
theorem settledFields_allPairs :
    (fields : List (Str × Value)) → SettledFields (ε := ε) allPairs fields
  | [] => trivial
  | (_,value)::fields => ⟨settled_allPairs value,settledFields_allPairs fields⟩
end

theorem loads_lastPairs_distinct {text : Str} {value : Value} (range : InRange text)
    (read : loads format (ε := ε) lastPairs text = .ok value) : Distinct value := by
  apply loads_good format _ _ text value range read
  constructor
  · intro text value rest scalar
    have settled :=
      readScalar_settled format (fun fields =>
        if (fields.map Prod.fst).Nodup then .ok fields else .ok []) text
      value rest scalar
    apply distinct_of_settled _ value settled
    intro fields taken
    split_ifs at taken with once
    · exact once
    · rw [← Except.ok.inj taken]
      exact List.nodup_nil
  · exact fun _ _ => trivial
  · exact fun items each => (distinctItems_iff items).mpr each
  · rintro members fields hooked each
    cases hooked
    refine ⟨(Dict.ofPairs_keys members).1,(distinctFields_iff _).mpr ?_⟩
    exact fun field member => (each field (Dict.mem_ofPairs member)).2

/-- A value that a hook kept and that another takes as it is, is read with the other. -/
private theorem read_settled (keeps : Keeps hook) (fuel : Nat) :
    (∀ text value rest, readValue format hook fuel text = .ok (value,rest) → Settled hook' value →
      readValue format hook' fuel text = .ok (value,rest)) ∧
    (∀ text items rest, readItems format hook fuel text = .ok (items,rest) →
      SettledItems hook' items →
      readItems format hook' fuel text = .ok (items,rest)) ∧
    (∀ text members rest, readMembers format hook fuel text = .ok (members,rest) →
      SettledFields hook' members →
      readMembers format hook' fuel text = .ok (members,rest)) := by
  induction fuel with
  | zero => exact ⟨by simp [readValue],by simp [readItems],by simp [readMembers]⟩
  | succ fuel ih =>
    obtain ⟨onValue,onItems,onMembers⟩ := ih
    refine ⟨?_,?_,?_⟩
    · intro text value rest read settled
      apply readValue_iff.mpr
      cases readValue_iff.mp read with
      | string scanned => exact .string scanned
      | emptyList closed => exact .emptyList closed
      | list filled inner => exact .list filled (onItems _ _ _ inner settled)
      | emptyDict closed hooked =>
        obtain rfl := keeps _ _ hooked
        exact .emptyDict closed settled.1
      | dict filled inner hooked =>
        obtain rfl := keeps _ _ hooked
        exact .dict filled (onMembers _ _ _ inner settled.2) settled.1
      | scalar string list object scalar => exact .scalar string list object scalar
    · intro text items rest read settled
      apply readItems_iff.mpr
      cases readItems_iff.mp read with
      | last first closed => exact .last (onValue _ _ _ first settled.1) closed
      | more first comma filled inner =>
        exact .more (onValue _ _ _ first settled.1) comma filled (onItems _ _ _ inner settled.2)
    · intro text members rest read settled
      apply readMembers_iff.mpr
      cases readMembers_iff.mp read with
      | last scanned colon first closed =>
        exact .last scanned colon (onValue _ _ _ first settled.1) closed
      | more scanned colon first comma filled inner =>
        exact .more scanned colon (onValue _ _ _ first settled.1) comma filled
          (onMembers _ _ _ inner settled.2)

theorem loads_settled {text : Str} {value : Value} (keeps : Keeps hook)
    (read : loads format hook text = .ok value) (settled : Settled hook' value) :
    loads format hook' text = .ok value := by
  simp only [loads,decode] at read ⊢
  split_ifs at read ⊢ with marked
  split at read
  · contradiction
  · rename_i value' rest inner
    split_ifs at read with ended
    cases read
    rw [(read_settled format keeps _).1 _ _ _ inner settled]
    exact if_pos ended

/-- A text that repeats no key is read alike by all three. -/
theorem loads_distinct {text : Str} {value : Value}
    (read : loads format (ε := ε) allPairs text = .ok value) (distinct : Distinct value) :
    loads format (ε := ε) firstPairs text = .ok value ∧
      loads format (ε := ε) lastPairs text = .ok value := by
  constructor
  · apply loads_settled format allPairs_keeps read
    exact settled_of_distinct
      (fun fields once => by rw [firstPairs,Dict.firsts_distinct fields once]) value distinct
  · apply loads_settled format allPairs_keeps read
    exact settled_of_distinct
      (fun fields once => by rw [lastPairs,Dict.ofPairs_distinct fields once]) value distinct

mutual
/-- Read with every pair, a value that was written with escapes comes back joined. -/
theorem rebuild_allPairs :
    (value : Value) → rebuild (ε := ε) allPairs true value = .ok (joined value)
  | .null => rfl
  | .bool _ => rfl
  | .int _ => rfl
  | .float _ => rfl
  | .str _ => rfl
  | .list items => by
    rw [rebuild,rebuildItems_allPairs items]
    rfl
  | .dict fields => by
    rw [rebuild,rebuildFields_allPairs fields]
    rfl
theorem rebuildItems_allPairs : (items : List Value) →
    rebuildItems (ε := ε) allPairs true items = .ok (joinedItems items)
  | [] => rfl
  | item::items => by
    rw [rebuildItems,rebuild_allPairs item,rebuildItems_allPairs items]
    rfl
theorem rebuildFields_allPairs : (fields : List (Str × Value)) →
    rebuildFields (ε := ε) allPairs true fields = .ok (joinedFields fields)
  | [] => rfl
  | (key,value)::fields => by
    rw [rebuildFields,rebuild_allPairs value,rebuildFields_allPairs fields]
    rfl
end

end Readers

end QuilrMcp.Library.Json
