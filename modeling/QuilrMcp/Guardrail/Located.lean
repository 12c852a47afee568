import QuilrMcp.Guardrail.EventStream
import QuilrMcp.Library.JsonRoundTrip

/-! Rewriting a located text. Where every located choice keeps its text under the field that the
path names, a rewritten payload has the same located texts but for the one that was rewritten. -/
namespace QuilrMcp.Guardrail.Located
open Library.Text
open Library.Json (Value truthy)
open Library.Dict (assign lookup_assign lookup_assign_other assign_ne_nil)
open EventStream

variable (tables : Library.Unicode.Tables)

/-- A choice whose text stands under `message` while the path names a `delta` that is there but falsy. -/
def misplaced : Value → Bool
  | .dict choice =>
    match choice.lookup (lit "delta") with
    | some delta => !truthy delta
    | none => false
  | _ => false

/-- No located choice is misplaced. -/
def Placed : Value → Prop
  | .dict fields => ∀ choice ∈ choicesOf fields, (locateChoice false choice 0).isSome = true →
      misplaced choice = false
  | _ => True

instance decidablePlaced : (payload : Value) → Decidable (Placed payload)
  | .dict fields => inferInstanceAs (Decidable (∀ choice ∈ choicesOf fields,
      (locateChoice false choice 0).isSome = true → misplaced choice = false))
  | .null => .isTrue trivial
  | .bool _ => .isTrue trivial
  | .int _ => .isTrue trivial
  | .float _ => .isTrue trivial
  | .str _ => .isTrue trivial
  | .list _ => .isTrue trivial

/-- The places with the text at one path rewritten. -/
def retext (path : Path) (text : Str) (places : List Located) : List Located :=
  places.map (fun place => if place.path = path then {place with text} else place)

private theorem locateChoice_shape {claimed : Bool} {choice : Value} {position : Nat}
    {place : Located} (found : locateChoice claimed choice position = some place) :
    ∃ fields inner, choice = .dict fields ∧ innerOf fields = .dict inner ∧
      inner.lookup (lit "content") = some (.str place.text) ∧
      place.path = [.field (lit "choices"),.item position,.field (fieldName fields),
        .field (lit "content")] ∧
      place.key = if position = 0 ∧ claimed = false then mainText
        else lit "openai:" ++ Library.Json.natText position := by
  cases choice with
  | dict fields =>
    simp only [locateChoice] at found
    cases inner : innerOf fields with
    | dict inner' =>
      rw [inner] at found
      simp only at found
      cases content : inner'.lookup (lit "content") with
      | none => rw [content] at found; contradiction
      | some value =>
        rw [content] at found
        cases value with
        | str text =>
          simp only [Option.some.injEq] at found
          subst found
          exact ⟨fields,inner',rfl,inner,content,rfl,rfl⟩
        | _ => contradiction
    | _ => rw [inner] at found; contradiction
  | _ => contradiction

private theorem locateChoice_dict (claimed : Bool) (fields inner : List (Str × Value))
    (position : Nat) (text : Str) (shape : innerOf fields = .dict inner)
    (content : inner.lookup (lit "content") = some (.str text)) :
    locateChoice claimed (.dict fields) position =
      some ⟨if position = 0 ∧ claimed = false then mainText
          else lit "openai:" ++ Library.Json.natText position,
        [.field (lit "choices"),.item position,.field (fieldName fields),.field (lit "content")],
        text⟩ := by
  simp only [locateChoice,shape,content]

private theorem names_apart : lit "delta" ≠ lit "message" ∧ lit "choices" ≠ lit "delta" ∧
    lit "index" ≠ lit "delta" ∧
    lit "type" ≠ lit "text" ∧ lit "type" ≠ lit "partial_json" ∧ lit "delta" ≠ lit "choices" ∧
    lit "index" ≠ lit "choices" := by
  decide

private theorem truthy_assign (key : Str) (value : Value) (fields : List (Str × Value)) :
    truthy (.dict (assign key value fields)) = true := by
  obtain ⟨first,rest,shape⟩ := List.exists_cons_of_ne_nil (assign_ne_nil key value fields)
  rw [truthy,shape]
  rfl

private theorem inner_field {fields inner : List (Str × Value)}
    (shape : innerOf fields = .dict inner) (placed : misplaced (.dict fields) = false) :
    fields.lookup (fieldName fields) = some (.dict inner) := by
  rw [fieldName]
  rw [innerOf] at shape
  rw [misplaced] at placed
  cases found : fields.lookup (lit "delta") with
  | none =>
    simp only [found,Option.getD_none,truthy,Bool.false_eq_true,if_false] at shape
    simp only [Option.isSome_none,Bool.false_eq_true,if_false]
    cases message : fields.lookup (lit "message") with
    | none => rw [message] at shape; contradiction
    | some value => rw [message,Option.getD_some] at shape; rw [shape]
  | some delta =>
    simp only [found,Bool.not_eq_false'] at placed
    simp only [found,Option.getD_some,placed,if_true] at shape
    simp only [Option.isSome_some,if_true,found,shape]

private theorem inner_assign (fields : List (Str × Value)) (value : Value)
    (filled : truthy value = true) :
    innerOf (assign (fieldName fields) value fields) = value ∧
      fieldName (assign (fieldName fields) value fields) = fieldName fields ∧
      misplaced (.dict (assign (fieldName fields) value fields)) = false := by
  cases found : fields.lookup (lit "delta") with
  | none =>
    have name : fieldName fields = lit "message" := by rw [fieldName,found]; rfl
    have absent : (assign (lit "message") value fields).lookup (lit "delta") = none := by
      rw [lookup_assign_other _ _ _ _ names_apart.1,found]
    rw [name]
    refine ⟨?_,?_,?_⟩
    · simp only [innerOf,absent,Option.getD_none,truthy,Bool.false_eq_true,if_false,lookup_assign,
        Option.getD_some]
    · rw [fieldName,absent]
      rfl
    · rw [misplaced,absent]
  | some delta =>
    have name : fieldName fields = lit "delta" := by rw [fieldName,found]; rfl
    rw [name]
    refine ⟨?_,?_,?_⟩
    · simp only [innerOf,lookup_assign,Option.getD_some,filled,if_true]
    · rw [fieldName,lookup_assign]
      rfl
    · rw [misplaced,lookup_assign]
      simp only [filled,Bool.not_true]

theorem replace_choice {claimed : Bool} {choice : Value} {position : Nat} {place : Located}
    (found : locateChoice claimed choice position = some place) (placed : misplaced choice = false)
    (safe : Str) :
    ∃ fields choice', choice = .dict fields ∧
      place.path = [.field (lit "choices"),.item position,.field (fieldName fields),
        .field (lit "content")] ∧
      replaceAt [.field (fieldName fields),.field (lit "content")] choice safe = some choice' ∧
      locateChoice claimed choice' position = some {place with text := safe} ∧
      misplaced choice' = false := by
  obtain ⟨fields,inner,rfl,shape,content,path,key⟩ := locateChoice_shape found
  have here := inner_field shape placed
  obtain ⟨inside,name,stays⟩ :=
    inner_assign fields (.dict (assign (lit "content") (.str safe) inner)) (truthy_assign _ _ _)
  refine ⟨fields,.dict (assign (fieldName fields) (.dict (assign (lit "content") (.str safe) inner))
    fields),rfl,path,?_,?_,stays⟩
  · simp only [replaceAt,here,content,Option.bind_eq_bind,Option.bind_some,Option.pure_def]
  · rw [locateChoice_dict claimed _ _ position safe inside (lookup_assign _ _ _),name,path,key]

private theorem locateChoice_isSome (claimed : Bool) (choice : Value) (position : Nat) :
    (locateChoice claimed choice position).isSome = (locateChoice false choice 0).isSome := by
  cases choice with
  | dict fields =>
    simp only [locateChoice]
    cases innerOf fields with
    | dict inner =>
      simp only
      cases inner.lookup (lit "content") with
      | none => rfl
      | some value => cases value <;> rfl
    | _ => rfl
  | _ => rfl

private theorem choices_paths {claimed : Bool} {choices : List Value} {start : Nat}
    {place : Located} (member : place ∈ locateChoices claimed choices start) :
    ∃ i name, start ≤ i ∧ place.path = [.field (lit "choices"),.item i,.field name,
      .field (lit "content")] ∧
      (name = lit "delta" ∨ name = lit "message") := by
  induction choices generalizing start with
  | nil => exact absurd member List.not_mem_nil
  | cons choice choices ih =>
    rw [locateChoices,List.mem_append,Option.mem_toList] at member
    rcases member with first | later
    · obtain ⟨fields,inner,_,_,_,path,_⟩ := locateChoice_shape first
      refine ⟨start,_,Nat.le_refl _,path,?_⟩
      rw [fieldName]
      split_ifs
      · exact Or.inl rfl
      · exact Or.inr rfl
    · obtain ⟨i,name,low,rest⟩ := ih later
      exact ⟨i,name,by omega,rest⟩

theorem retext_other {path : Path} {safe : Str} {places : List Located}
    (apart : ∀ place ∈ places, place.path ≠ path) :
    retext path safe places = places := by
  rw [retext]
  exact (List.map_congr_left fun place member => if_neg (apart place member)).trans (List.map_id _)

theorem retext_append (path : Path) (safe : Str) (first second : List Located) :
    retext path safe (first ++ second) = retext path safe first ++ retext path safe second :=
      List.map_append

private theorem replace_choices {claimed : Bool} {choices : List Value} {start : Nat}
    {place : Located} (placed : ∀ choice ∈ choices, (locateChoice false choice 0).isSome = true →
      misplaced choice = false)
    (member : place ∈ locateChoices claimed choices start) (safe : Str) :
    ∃ i name choice choice', choices[i]? = some choice ∧
      place.path = [.field (lit "choices"),.item (start + i),.field name,.field (lit "content")] ∧
      replaceAt [.field name,.field (lit "content")] choice safe = some choice' ∧
      locateChoices claimed (choices.set i choice') start =
        retext place.path safe (locateChoices claimed choices start) ∧
      ∀ other ∈ choices.set i choice', (locateChoice false other 0).isSome = true →
      misplaced other = false := by
  induction choices generalizing start with
  | nil => exact absurd member List.not_mem_nil
  | cons choice choices ih =>
    rw [locateChoices,List.mem_append,Option.mem_toList] at member
    have rest (other : Value) (later : other ∈ choices) :=
      placed other (List.mem_cons_of_mem _ later)
    rcases member with first | later
    · have real :=
        placed choice List.mem_cons_self
          (by rw [← locateChoice_isSome claimed choice start,first]; rfl)
      obtain ⟨fields,choice',rfl,path,replaced,located,stays⟩ := replace_choice first real safe
      refine ⟨0,_,_,choice',rfl,path,replaced,?_,?_⟩
      · have apart : retext place.path safe (locateChoices claimed choices (start + 1)) =
          locateChoices claimed choices (start + 1) := by
          refine retext_other (fun other later same => ?_)
          obtain ⟨i,name,low,path',_⟩ := choices_paths later
          rw [path',path] at same
          simp at same
          omega
        rw [List.set_cons_zero,locateChoices,locateChoices,located,first,retext_append,apart]
        simp [retext]
      · intro other found _
        rw [List.set_cons_zero] at found
        rcases List.mem_cons.mp found with rfl | later
        · exact stays
        · exact rest other later ‹_›
    · obtain ⟨i,name,other,other',here,path,replaced,located,stays⟩ := ih rest later
      refine ⟨i + 1,name,other,other',here,by rw [path]; congr 3; omega,replaced,?_,?_⟩
      · have apart : retext place.path safe (locateChoice claimed choice start).toList =
          (locateChoice claimed choice start).toList := by
          refine retext_other (fun first found same => ?_)
          rw [Option.mem_toList] at found
          obtain ⟨_,_,_,_,_,path',_⟩ := locateChoice_shape found
          rw [path',path] at same
          simp at same
          omega
        rw [List.set_cons_succ,locateChoices,locateChoices,located,retext_append,apart]
      · intro another found present
        rw [List.set_cons_succ] at found
        rcases List.mem_cons.mp found with rfl | later
        · exact placed _ List.mem_cons_self present
        · exact stays another later present

private theorem delta_shape {fields : List (Str × Value)} {place : Located}
    (member : place ∈ locateDelta tables fields) :
    ∃ delta kind name, fields.lookup (lit "delta") = some (.dict delta) ∧
    delta.lookup (lit "type") = some (.str kind) ∧
      lit "type" ≠ name ∧ delta.lookup name = some (.str place.text) ∧
      place.path = [.field (lit "delta"),.field name] ∧
      ∀ fields' delta' text, fields'.lookup (lit "delta") = some (.dict delta') →
        fields'.lookup (lit "index") = fields.lookup (lit "index") →
        delta'.lookup (lit "type") = some (.str kind) →
        delta'.lookup name = some (.str text) →
        locateDelta tables fields' = [{place with text}] := by
  rw [locateDelta] at member
  cases found : fields.lookup (lit "delta") with
  | none => rw [found] at member; cases member
  | some value =>
    rw [found] at member
    cases value with
    | dict delta =>
      simp only at member
      cases type : delta.lookup (lit "type") with
      | none => rw [type] at member; cases member
      | some value =>
        rw [type] at member
        cases value with
        | str kind =>
          simp only at member
          by_cases prose : kind = lit "text_delta"
          · rw [if_pos prose] at member
            cases leaf : delta.lookup (lit "text") with
            | none => rw [leaf] at member; cases member
            | some value =>
              rw [leaf] at member
              cases value with
              | str text =>
                obtain rfl := List.mem_singleton.mp member
                refine ⟨delta,kind,lit "text",rfl,type,names_apart.2.2.2.1,leaf,rfl,?_⟩
                intro fields' delta' text' here index type' leaf'
                simp only [locateDelta,here,type',if_pos prose,leaf',index]
              | _ => cases member
          · rw [if_neg prose] at member
            by_cases arguments : kind = lit "input_json_delta"
            · rw [if_pos arguments] at member
              cases leaf : delta.lookup (lit "partial_json") with
              | none => rw [leaf] at member; cases member
              | some value =>
                rw [leaf] at member
                cases value with
                | str text =>
                  obtain rfl := List.mem_singleton.mp member
                  refine ⟨delta,kind,lit "partial_json",rfl,type,names_apart.2.2.2.2.1,leaf,rfl,?_⟩
                  intro fields' delta' text' here index type' leaf'
                  simp only [locateDelta,here,type',if_neg prose,if_pos arguments,leaf',index]
                | _ => cases member
            · rw [if_neg arguments] at member
              cases member
        | _ => cases member
    | _ => cases member

private theorem replace_delta {fields : List (Str × Value)} {place : Located}
    (member : place ∈ locateDelta tables fields) (safe : Str) :
    ∃ fields' name, replaceAt place.path (.dict fields) safe = some (.dict fields') ∧
      place.path = [.field (lit "delta"),.field name] ∧ locateDelta tables fields = [place] ∧
      locateDelta tables fields' = [{place with text := safe}] ∧
      choicesOf fields' = choicesOf fields := by
  obtain ⟨delta,kind,name,here,type,apart,leaf,path,again⟩ := delta_shape tables member
  refine ⟨assign (lit "delta") (.dict (assign name (.str safe) delta)) fields,name,?_,path,?_,?_,?_⟩
  · rw [path]
    simp only [replaceAt,here,leaf,Option.bind_eq_bind,Option.bind_some,Option.pure_def]
  · exact again fields delta place.text here rfl type leaf
  · refine again _ _ safe (lookup_assign _ _ _) ?_ ?_ (lookup_assign _ _ _)
    · exact lookup_assign_other _ _ _ _ names_apart.2.2.1
    · rw [lookup_assign_other _ _ _ _ apart,type]
  · rw [choicesOf,choicesOf,lookup_assign_other _ _ _ _ names_apart.2.1]

private theorem locateDelta_assign (value : Value) (fields : List (Str × Value)) :
    locateDelta tables (assign (lit "choices") value fields) = locateDelta tables fields := by
  rw [locateDelta,locateDelta,lookup_assign_other _ _ _ _ names_apart.2.2.2.2.2.1,
    lookup_assign_other _ _ _ _ names_apart.2.2.2.2.2.2]

private theorem choices_list {fields : List (Str × Value)} (present : choicesOf fields ≠ []) :
    fields.lookup (lit "choices") = some (.list (choicesOf fields)) := by
  rw [choicesOf] at present ⊢
  cases found : fields.lookup (lit "choices") with
  | none =>
    rw [found] at present
    exact absurd rfl present
  | some value =>
    rw [found] at present
    cases value with
    | list choices => rfl
    | _ => exact absurd rfl present

private theorem replace_choice_at {fields : List (Str × Value)} {claimed : Bool} {place : Located}
    (placed : Placed (.dict fields)) (member : place ∈ locateChoices claimed (choicesOf fields) 0)
    (safe : Str) :
    ∃ fields', replaceAt place.path (.dict fields) safe = some (.dict fields') ∧
    Placed (.dict fields') ∧
      (∃ i name, place.path = [.field (lit "choices"),.item i,.field name,.field (lit "content")]) ∧
      locateDelta tables fields' = locateDelta tables fields ∧
      locateChoices claimed (choicesOf fields') 0 =
        retext place.path safe (locateChoices claimed (choicesOf fields) 0) := by
  obtain ⟨i,name,choice,choice',here,path,replaced,located,stays⟩ :=
    replace_choices placed member safe
  have present : choicesOf fields ≠ [] := fun empty => by simp [empty] at here
  have listed := choices_list present
  rw [Nat.zero_add] at path
  refine ⟨assign (lit "choices") (.list ((choicesOf fields).set i choice')) fields,?_,?_,
    ⟨i,name,path⟩,?_,?_⟩
  · rw [path]
    simp only [replaceAt,listed,here,replaced,Option.bind_eq_bind,Option.bind_some,Option.pure_def]
  · simpa only [Placed,choicesOf,lookup_assign] using stays
  · exact locateDelta_assign tables _ fields
  · rw [choicesOf,lookup_assign]
    exact located

/-- The path of a located text can be rewritten, and nothing else that is located changes. -/
theorem replace_located {payload : Value} {place : Located} (placed : Placed payload)
    (member : place ∈ locateTexts tables payload) (safe : Str) :
    ∃ payload', replaceAt place.path payload safe = some payload' ∧
      locateTexts tables payload' = retext place.path safe (locateTexts tables payload) ∧
      Placed payload' := by
  cases payload with
  | dict fields =>
    rw [locateTexts,List.mem_append] at member
    rcases member with block | choice
    · obtain ⟨fields',name,replaced,path,before,after,choices⟩ := replace_delta tables block safe
      refine ⟨.dict fields',replaced,?_,?_⟩
      · have apart : retext place.path safe (locateChoices true (choicesOf fields) 0) =
          locateChoices true (choicesOf fields) 0 := by
          refine retext_other (fun other later same => ?_)
          obtain ⟨i,name',_,path',_⟩ := choices_paths later
          rw [path',path] at same
          simp at same
        rw [locateTexts,locateTexts,after,before,choices,retext_append]
        simp only [List.isEmpty_cons,Bool.not_false,apart]
        simp [retext]
      · intro choice found
        rw [choices] at found
        exact placed choice found
    · obtain ⟨fields',replaced,stays,⟨i,name,path⟩,block,located⟩ :=
        replace_choice_at tables placed choice safe
      refine ⟨.dict fields',replaced,?_,stays⟩
      have apart : retext place.path safe (locateDelta tables fields) =
        locateDelta tables fields := by
        refine retext_other (fun other first same => ?_)
        obtain ⟨_,_,_,_,_,_,_,path',_⟩ := delta_shape tables first
        rw [path',path] at same
        simp at same
      rw [locateTexts,locateTexts,block,located,retext_append,apart]
  | _ => cases member

private theorem choices_distinct (claimed : Bool) (choices : List Value) (start : Nat) :
    ((locateChoices claimed choices start).map Located.path).Nodup := by
  induction choices generalizing start with
  | nil => exact List.nodup_nil
  | cons choice choices ih =>
    rw [locateChoices,List.map_append]
    apply List.Nodup.append _ (ih _)
    · intro path first later
      obtain ⟨place,member,rfl⟩ := List.mem_map.mp first
      obtain ⟨other,found,same⟩ := List.mem_map.mp later
      obtain ⟨i,name,low,path,_⟩ := choices_paths found
      obtain ⟨_,_,_,_,_,path',_⟩ := locateChoice_shape (Option.mem_toList.mp member)
      rw [path,path'] at same
      simp at same
      omega
    · cases locateChoice claimed choice start with
      | none => exact List.nodup_nil
      | some place => exact List.nodup_singleton _

theorem located_distinct (payload : Value) :
    ((locateTexts tables payload).map Located.path).Nodup := by
  cases payload with
  | dict fields =>
    rw [locateTexts,List.map_append]
    apply List.Nodup.append _ (choices_distinct _ _ _)
    · intro path first later
      obtain ⟨place,member,rfl⟩ := List.mem_map.mp first
      obtain ⟨other,found,same⟩ := List.mem_map.mp later
      obtain ⟨i,name,_,path,_⟩ := choices_paths found
      obtain ⟨_,_,_,_,_,_,_,path',_⟩ := delta_shape tables member
      rw [path,path'] at same
      simp at same
    · cases located : locateDelta tables fields with
      | nil => exact List.nodup_nil
      | cons place places =>
        have member : place ∈ locateDelta tables fields := located ▸ List.mem_cons_self
        obtain ⟨_,_,_,_,before,_⟩ := replace_delta tables member []
        rw [located] at before
        rw [before]
        exact List.nodup_singleton _
  | _ => exact List.nodup_nil

/-- The paths of located texts, and what a rewrite along one changes of the payload. -/
theorem located_path {payload : Value} {place : Located}
    (member : place ∈ locateTexts tables payload) :
    (∃ name, place.path = [.field (lit "delta"),.field name]) ∨
      ∃ i name, place.path = [.field (lit "choices"),.item i,.field name,.field (lit "content")] ∧
        (name = lit "delta" ∨ name = lit "message") := by
  cases payload with
  | dict fields =>
    rw [locateTexts,List.mem_append] at member
    rcases member with block | choice
    · obtain ⟨_,_,name,_,_,_,_,path,_⟩ := delta_shape tables block
      exact Or.inl ⟨name,path⟩
    · obtain ⟨i,name,_,path,known⟩ := choices_paths choice
      exact Or.inr ⟨i,name,path,known⟩
  | _ => cases member

def valueAt : Path → Value → Option Value
  | [], value => some value
  | .item position::rest, .list items => items[position]?.bind (valueAt rest)
  | .field name::rest, .dict fields => (fields.lookup name).bind (valueAt rest)
  | _::_, _ => none

/-- A rewrite is defined where there is something to read. -/
theorem replaceAt_isSome (path : Path) (value : Value) (safe : Str) :
    (replaceAt path value safe).isSome = (valueAt path value).isSome := by
  induction path generalizing value with
  | nil => rw [replaceAt,valueAt]; rfl
  | cons step rest ih =>
    cases step with
    | item position =>
      cases value with
      | list items =>
        rw [replaceAt,valueAt]
        cases items[position]? with
        | none => rfl
        | some inner =>
          simp only [Option.bind_eq_bind,Option.bind_some]
          rw [← ih inner]
          cases replaceAt rest inner safe <;> rfl
      | _ => simp only [replaceAt,valueAt]
    | field name =>
      cases value with
      | dict fields =>
        rw [replaceAt,valueAt]
        cases fields.lookup name with
        | none => rfl
        | some inner =>
          simp only [Option.bind_eq_bind,Option.bind_some]
          rw [← ih inner]
          cases replaceAt rest inner safe <;> rfl
      | _ => simp only [replaceAt,valueAt]

theorem valueAt_replaced {path : Path} {value value' : Value} {safe : Str}
    (replaced : replaceAt path value safe = some value') :
    valueAt path value' = some (.str safe) := by
  induction path generalizing value value' with
  | nil =>
    rw [replaceAt,Option.some.injEq] at replaced
    rw [← replaced,valueAt]
  | cons step rest ih =>
    cases step with
    | item position =>
      cases value with
      | list items =>
        simp only [replaceAt,Option.bind_eq_bind,Option.bind_eq_some_iff,Option.pure_def,
          Option.some.injEq] at replaced
        obtain ⟨inner,here,inner',inside,rfl⟩ := replaced
        have bound := (List.getElem?_eq_some_iff.mp here).1
        rw [valueAt,List.getElem?_set_self bound,Option.bind_some,ih inside]
      | _ => simp only [replaceAt] at replaced; contradiction
    | field name =>
      cases value with
      | dict fields =>
        simp only [replaceAt,Option.bind_eq_bind,Option.bind_eq_some_iff,Option.pure_def,
          Option.some.injEq] at replaced
        obtain ⟨inner,here,inner',inside,rfl⟩ := replaced
        rw [valueAt,lookup_assign,Option.bind_some,ih inside]
      | _ => simp only [replaceAt] at replaced; contradiction

theorem valueAt_other {path other : Path} {value value' : Value} {safe : Str}
    (replaced : replaceAt path value safe = some value') (above : ¬ other <+: path)
    (below : ¬ path <+: other) : valueAt other value' = valueAt other value := by
  induction path generalizing other value value' with
  | nil => exact absurd List.nil_prefix below
  | cons step rest ih =>
    cases other with
    | nil => exact absurd List.nil_prefix above
    | cons step' rest' =>
      rw [List.cons_prefix_cons,not_and] at above below
      cases step with
      | item position =>
        cases value with
        | list items =>
          simp only [replaceAt,Option.bind_eq_bind,Option.bind_eq_some_iff,Option.pure_def,
            Option.some.injEq] at replaced
          obtain ⟨inner,here,inner',inside,rfl⟩ := replaced
          cases step' with
          | item position' =>
            rw [valueAt,valueAt]
            by_cases same : position = position'
            · subst same
              have bound := (List.getElem?_eq_some_iff.mp here).1
              rw [List.getElem?_set_self bound,here,Option.bind_some,Option.bind_some,
                ih inside (above rfl) (below rfl)]
            · rw [List.getElem?_set_ne same]
          | field name => simp only [valueAt]
        | _ => simp only [replaceAt] at replaced; contradiction
      | field name =>
        cases value with
        | dict fields =>
          simp only [replaceAt,Option.bind_eq_bind,Option.bind_eq_some_iff,Option.pure_def,
            Option.some.injEq] at replaced
          obtain ⟨inner,here,inner',inside,rfl⟩ := replaced
          cases step' with
          | item position' => simp only [valueAt]
          | field name' =>
            rw [valueAt,valueAt]
            by_cases same : name' = name
            · subst same
              rw [lookup_assign,here,Option.bind_some,Option.bind_some,
                ih inside (above rfl) (below rfl)]
            · rw [lookup_assign_other _ _ _ _ same]
        | _ => simp only [replaceAt] at replaced; contradiction

private theorem located_at {claimed : Bool} {choices : List Value} {start : Nat} {place : Located}
    (member : place ∈ locateChoices claimed choices start) :
    ∃ i choice, choices[i]? = some choice ∧
    locateChoice claimed choice (start + i) = some place := by
  induction choices generalizing start with
  | nil => exact absurd member List.not_mem_nil
  | cons choice choices ih =>
    rw [locateChoices,List.mem_append,Option.mem_toList] at member
    rcases member with first | later
    · exact ⟨0,choice,rfl,first⟩
    · obtain ⟨i,other,here,found⟩ := ih later
      exact ⟨i + 1,other,here,by rw [← found]; congr 1; omega⟩

private theorem located_of_at {claimed : Bool} {choices : List Value} {start i : Nat}
    {choice : Value} {place : Located} (here : choices[i]? = some choice)
    (found : locateChoice claimed choice (start + i) = some place) :
    place ∈ locateChoices claimed choices start := by
  induction choices generalizing start i with
  | nil => contradiction
  | cons first choices ih =>
    rw [locateChoices,List.mem_append,Option.mem_toList]
    cases i with
    | zero =>
      obtain rfl := Option.some.inj here
      exact Or.inl found
    | succ i => exact Or.inr (ih here (by rw [← found]; congr 1; omega))

private theorem valueAt_choice {claimed : Bool} {choice : Value} {position : Nat} {place : Located}
    (found : locateChoice claimed choice position = some place)
    (placed : misplaced choice = false) :
    ∃ name, place.path = [.field (lit "choices"),.item position,.field name,
      .field (lit "content")] ∧
      valueAt [.field name,.field (lit "content")] choice = some (.str place.text) := by
  obtain ⟨fields,inner,rfl,shape,content,path,_⟩ := locateChoice_shape found
  refine ⟨_,path,?_⟩
  simp only [valueAt,inner_field shape placed,Option.bind_some,content]

private theorem valueAt_misplaced {claimed : Bool} {choice : Value} {position : Nat}
    {place : Located} (found : locateChoice claimed choice position = some place)
    (astray : misplaced choice = true) :
    ∃ name, place.path = [.field (lit "choices"),.item position,.field name,
      .field (lit "content")] ∧
      valueAt [.field name,.field (lit "content")] choice = none := by
  obtain ⟨fields,inner,rfl,_,_,path,_⟩ := locateChoice_shape found
  refine ⟨_,path,?_⟩
  rw [misplaced] at astray
  cases delta : fields.lookup (lit "delta") with
  | none => rw [delta] at astray; contradiction
  | some value =>
    have name : fieldName fields = lit "delta" := by rw [fieldName,delta]; rfl
    rw [delta,Bool.not_eq_true'] at astray
    rw [name,valueAt,delta,Option.bind_some]
    cases value with
    | dict inner' =>
      rw [truthy,Bool.not_eq_false',List.isEmpty_iff] at astray
      rw [astray]
      rfl
    | _ => simp only [valueAt]

theorem located_value {payload : Value} {place : Located} (placed : Placed payload)
    (member : place ∈ locateTexts tables payload) :
    valueAt place.path payload = some (.str place.text) := by
  cases payload with
  | dict fields =>
    rw [locateTexts,List.mem_append] at member
    rcases member with block | choice
    · obtain ⟨delta,kind,name,here,_,_,leaf,path,_⟩ := delta_shape tables block
      simp only [path,valueAt,here,Option.bind_some,leaf]
    · obtain ⟨i,value,here,found⟩ := located_at choice
      rw [Nat.zero_add] at found
      have real :=
        placed value (List.mem_of_getElem? here)
          (by rw [← locateChoice_isSome _ value i,found]; rfl)
      obtain ⟨name,path,inside⟩ := valueAt_choice found real
      have present : choicesOf fields ≠ [] := fun (empty : choicesOf fields = []) => by
        simp [empty] at here
      rw [path,valueAt,choices_list present,Option.bind_some,valueAt,here,Option.bind_some,inside]
  | _ => cases member

private theorem choices_keys (claimed : Bool) (choices : List Value) (start : Nat) :
    ((locateChoices claimed choices start).map Located.key).Nodup ∧
      ∀ place ∈ locateChoices claimed choices start,
        ∃ i, start ≤ i ∧ place.key = if i = 0 ∧ claimed = false then mainText
          else lit "openai:" ++ Library.Json.natText i := by
  induction choices generalizing start with
  | nil => exact ⟨List.nodup_nil,List.forall_mem_nil _⟩
  | cons choice choices ih =>
    obtain ⟨distinct,keys⟩ := ih (start + 1)
    have here (place : Located) (found : locateChoice claimed choice start = some place) :
        place.key = if start = 0 ∧ claimed = false then mainText
          else lit "openai:" ++ Library.Json.natText start := by
      obtain ⟨_,_,_,_,_,_,key⟩ := locateChoice_shape found
      exact key
    rw [locateChoices]
    constructor
    · rw [List.map_append]
      apply List.Nodup.append _ distinct
      · intro key first later
        obtain ⟨place,member,rfl⟩ := List.mem_map.mp first
        obtain ⟨other,found,same⟩ := List.mem_map.mp later
        obtain ⟨i,low,key⟩ := keys other found
        rw [key,here place (Option.mem_toList.mp member),if_neg (by omega)] at same
        split_ifs at same with main
        · rw [mainText] at same
          simp [lit] at same
        · have := Library.Json.natText_injective (List.append_cancel_left same)
          omega
      · cases locateChoice claimed choice start with
        | none => exact List.nodup_nil
        | some place => exact List.nodup_singleton _
    · intro place member
      rcases List.mem_append.mp member with first | later
      · exact ⟨start,Nat.le_refl _,here place (Option.mem_toList.mp first)⟩
      · obtain ⟨i,low,key⟩ := keys place later
        exact ⟨i,by omega,key⟩

private theorem delta_key {fields : List (Str × Value)} {place : Located}
    (member : place ∈ locateDelta tables fields) (text : Str) :
    place.key ≠ lit "openai:" ++ text := by
  rw [locateDelta] at member
  split at member
  · simp only at member
    split at member
    · split_ifs at member
      · split at member
        · rw [List.mem_singleton.mp member]
          simp [mainText,lit]
        · exact absurd member List.not_mem_nil
      · split at member
        · rw [List.mem_singleton.mp member]
          simp [lit]
        · exact absurd member List.not_mem_nil
      · split at member
        · rw [List.mem_singleton.mp member]
          simp [lit]
        · exact absurd member List.not_mem_nil
      · exact absurd member List.not_mem_nil
    · exact absurd member List.not_mem_nil
  · exact absurd member List.not_mem_nil

theorem located_keys (payload : Value) : ((locateTexts tables payload).map Located.key).Nodup := by
  cases payload with
  | dict fields =>
    obtain ⟨distinct,keys⟩ :=
      choices_keys (!(locateDelta tables fields).isEmpty) (choicesOf fields) 0
    rw [locateTexts,List.map_append]
    apply List.Nodup.append _ distinct
    · intro key first later
      obtain ⟨place,member,rfl⟩ := List.mem_map.mp first
      obtain ⟨other,found,same⟩ := List.mem_map.mp later
      obtain ⟨i,_,key⟩ := keys other found
      have claimed : (!(locateDelta tables fields).isEmpty) = true := by
        rw [Bool.not_eq_true',List.isEmpty_eq_false_iff]
        exact List.ne_nil_of_mem member
      rw [claimed,if_neg (fun both => Bool.noConfusion both.2)] at key
      exact delta_key tables member _ (same.symm.trans key)
    · cases located : locateDelta tables fields with
      | nil => exact List.nodup_nil
      | cons place places =>
        have member : place ∈ locateDelta tables fields := located ▸ List.mem_cons_self
        obtain ⟨_,_,_,_,before,_⟩ := replace_delta tables member []
        rw [← located,before]
        exact List.nodup_singleton _
  | _ => exact List.nodup_nil

theorem located_apart {payload : Value} {place other : Located}
    (member : place ∈ locateTexts tables payload) (member' : other ∈ locateTexts tables payload)
    (apart : other.path ≠ place.path) : ¬ other.path <+: place.path := by
  intro above
  rcases located_path tables member with ⟨name,path⟩ | ⟨i,name,path,_⟩
  · rcases located_path tables member' with ⟨name',path'⟩ | ⟨i',name',path',_⟩
    · exact apart (List.IsPrefix.eq_of_length above (by rw [path,path']; rfl))
    · rw [path,path'] at above
      have size := above.length_le
      simp at size
  · rcases located_path tables member' with ⟨name',path'⟩ | ⟨i',name',path',_⟩
    · rw [path,path',List.cons_prefix_cons] at above
      exact absurd above.1 (by decide)
    · exact apart (List.IsPrefix.eq_of_length above (by rw [path,path']; rfl))

/-- Located paths lead to the located texts, and a rewrite along one is defined and changes nothing else. -/
structure Real (payload : Value) : Prop where
  reads : ∀ place ∈ locateTexts tables payload, valueAt place.path payload = some (.str place.text)
  keys : ((locateTexts tables payload).map Located.key).Nodup
  paths : ((locateTexts tables payload).map Located.path).Nodup
  writes : ∀ place ∈ locateTexts tables payload, ∀ text, ∃ payload',
    replaceAt place.path payload text = some payload' ∧
    valueAt place.path payload' = some (.str text) ∧
    (∀ other ∈ locateTexts tables payload, other.path ≠ place.path →
      valueAt other.path payload' = valueAt other.path payload) ∧
    ∀ path, ¬ path <+: place.path → ¬ place.path <+: path →
    valueAt path payload' = valueAt path payload

/-- Where a located choice is misplaced, the path of its text leads nowhere. -/
theorem astray_of_unplaced {payload : Value} (unplaced : ¬ Placed payload) :
    ∃ place ∈ locateTexts tables payload, valueAt place.path payload = none := by
  cases payload with
  | dict fields =>
    simp only [Placed,not_forall,Bool.not_eq_false] at unplaced
    obtain ⟨choice,member,present,astray⟩ := unplaced
    obtain ⟨i,here⟩ := List.mem_iff_getElem?.mp member
    rw [← locateChoice_isSome (!(locateDelta tables fields).isEmpty) choice i] at present
    obtain ⟨place,found⟩ := Option.isSome_iff_exists.mp present
    have listed : place ∈ locateTexts tables (.dict fields) := by
      rw [locateTexts]
      exact List.mem_append_right _ (located_of_at here (by rw [Nat.zero_add,found]))
    obtain ⟨name,path,nothing⟩ := valueAt_misplaced found astray
    have some_ : choicesOf fields ≠ [] := List.ne_nil_of_mem member
    refine ⟨place,listed,?_⟩
    rw [path,valueAt,choices_list some_,Option.bind_some,valueAt,here,Option.bind_some,nothing]
  | _ => exact absurd trivial unplaced

theorem placed_of_real {payload : Value} (real : Real tables payload) : Placed payload := by
  by_contra unplaced
  obtain ⟨place,member,nothing⟩ := astray_of_unplaced tables unplaced
  have reads := real.reads place member
  rw [nothing] at reads
  contradiction

/-- Located paths are real exactly where no located choice is misplaced. -/
theorem real_iff (payload : Value) : Real tables payload ↔ Placed payload := by
  constructor
  · exact placed_of_real tables
  · intro placed
    refine ⟨fun place => located_value tables placed,located_keys tables payload,
      located_distinct tables payload,?_⟩
    intro place member text
    obtain ⟨payload',replaced,_⟩ := replace_located tables placed member text
    refine ⟨payload',replaced,valueAt_replaced replaced,?_,fun path => valueAt_other replaced⟩
    intro other found apart
    exact valueAt_other replaced (located_apart tables member found apart)
      (located_apart tables found member (Ne.symm apart))

/-- A choice with an empty `delta` whose text stands under `message`. -/
def emptyDeltaChoice : Value :=
  .dict [(lit "choices",
    .list [.dict [(lit "delta",.dict []),
      (lit "message",.dict [(lit "content",.str (lit "hello "))])]])]

theorem path_unreal : ¬ Real Library.Unicode.ascii emptyDeltaChoice := by
  intro real
  exact absurd (placed_of_real Library.Unicode.ascii real) (by decide)

end QuilrMcp.Guardrail.Located
