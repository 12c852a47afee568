import QuilrMcp.Library.JsonRoundTrip
import QuilrMcp.Router.Tokens
import Mathlib.Algebra.Order.BigOperators.Group.List
import Mathlib.Algebra.BigOperators.Group.List.Basic

/-! The two bills: what a usage record costs in the body of an answer, and in an event of a stream. -/
namespace QuilrMcp.Router.Billing
open Library Library.Text
open Library.Json (Value lookup)
open Tokens

def flagOf : Value → Option Bool
  | .bool value => some value
  | _ => none

/-- The four fields that hold a count. -/
def counts (usage : List (Str × Value)) : List Int :=
  usageKeys.filterMap (fun key => (lookup key usage).bind strictCountOf)

/-- The four fields that hold a boolean. -/
def flags (usage : List (Str × Value)) : List Bool :=
  usageKeys.filterMap (fun key => (lookup key usage).bind flagOf)

private theorem countOf_cases (value : Value) :
    (strictCountOf value = countOf value ∧ flagOf value = none) ∨
      ∃ flag, flagOf value = some flag ∧ strictCountOf value = none ∧
      countOf value = some (if flag then 1 else 0) := by
  cases value with
  | bool flag => exact Or.inr ⟨flag,rfl,rfl,rfl⟩
  | _ => exact Or.inl ⟨rfl,rfl⟩

private theorem counted (usage : List (Str × Value)) (keys : List Str) :
    (keys.filterMap (fun key => (lookup key usage).bind countOf)).sum =
        (keys.filterMap (fun key => (lookup key usage).bind strictCountOf)).sum +
          ((keys.filterMap (fun key => (lookup key usage).bind flagOf)).count true : Nat) ∧
      (keys.filterMap (fun key => (lookup key usage).bind countOf) = [] ↔
        keys.filterMap (fun key => (lookup key usage).bind strictCountOf) = [] ∧
          keys.filterMap (fun key => (lookup key usage).bind flagOf) = []) := by
  induction keys with
  | nil => simp
  | cons key keys ih =>
    obtain ⟨sum,empty⟩ := ih
    cases found : lookup key usage with
    | none =>
      simp only [List.filterMap_cons,found,Option.bind_none]
      exact ⟨sum,empty⟩
    | some value =>
      rcases countOf_cases value with ⟨same,none_⟩ | ⟨flag,flagged,uncounted,count⟩
      · cases strict : countOf value with
        | none =>
          simp only [List.filterMap_cons,found,Option.bind_some,same,none_,strict]
          exact ⟨sum,empty⟩
        | some amount => simp [found,same,none_,strict,sum,add_assoc]
      · cases flag with
        | true =>
          simp [found,flagged,uncounted,count,sum]
          omega
        | false => simp [found,flagged,uncounted,count,sum]

theorem actualTokens_usage (usage : List (Str × Value)) :
    actualTokens (.dict [(lit "usage",.dict usage)]) =
      if counts usage = [] ∧ flags usage = [] then none
      else some (max minimumCharge ((counts usage).sum + ((flags usage).count true : Nat))) := by
  obtain ⟨sum,empty⟩ := counted usage usageKeys
  have own : lookup (lit "usage") [(lit "usage",.dict usage)] = some (.dict usage) := by
    simp [lookup]
  simp only [actualTokens,own,List.isEmpty_iff]
  rw [sum,if_congr empty rfl rfl]
  rfl

theorem total_add (usage : List (Str × Value)) : (StreamUsageCollector.new.add usage).total =
      if counts usage = [] then none else some (max minimumCharge (counts usage).sum) := by
  have all : counts usage = [lit "input_tokens"].filterMap (fun key =>
    (lookup key usage).bind strictCountOf) ++
      ([lit "output_tokens"].filterMap (fun key => (lookup key usage).bind strictCountOf) ++
        [lit "cache_creation_input_tokens",lit "cache_read_input_tokens"].filterMap
          (fun key => (lookup key usage).bind strictCountOf)) := by
    rw [← List.filterMap_append,← List.filterMap_append]
    rfl
  have inputs : inputKeys.filterMap (fun key => (lookup key usage).bind strictCountOf) =
      [lit "input_tokens"].filterMap (fun key => (lookup key usage).bind strictCountOf) ++
        [lit "cache_creation_input_tokens",lit "cache_read_input_tokens"].filterMap
          (fun key => (lookup key usage).bind strictCountOf) := by
    rw [← List.filterMap_append]
    rfl
  rcases Option.eq_none_or_eq_some
    ((lookup (lit "output_tokens") usage).bind strictCountOf) with unsaid | ⟨output,said⟩
  · have none_ : [lit "output_tokens"].filterMap (fun key =>
      (lookup key usage).bind strictCountOf) = [] := by simp [unsaid]
    rw [none_,List.nil_append,← inputs] at all
    simp only [StreamUsageCollector.add,StreamUsageCollector.total,
      StreamUsageCollector.new,unsaid,← all]
    simp
  · have one : [lit "output_tokens"].filterMap (fun key => (lookup key usage).bind strictCountOf) =
      [output] := by simp [said]
    have sum : (counts usage).sum =
      (inputKeys.filterMap (fun key => (lookup key usage).bind strictCountOf)).sum + output := by
      rw [all,inputs,one]
      simp only [List.sum_append,List.sum_singleton]
      omega
    have more : counts usage ≠ [] := by simp [all,one]
    simp only [StreamUsageCollector.add,StreamUsageCollector.total,StreamUsageCollector.new,said,
      if_neg more,sum]
    simp

section Line
variable (tables : Unicode.Tables) (format : Json.FloatFormat)

private theorem brace_space : tables.isSpace 123 = false ∧ tables.isSpace 125 = false ∧
    tables.isSpace 100 = false ∧
    tables.isSpace 32 = true := by
  have ascii (code : Nat) (small : code < 128) := tables.isSpace_ascii code small
  exact ⟨ascii 123 (by decide),ascii 125 (by decide),ascii 100 (by decide),ascii 32 (by decide)⟩

/-- A `data:` line whose payload reads as one record of usage is billed for that record. -/
theorem feed_line {inside : Str} {usage : List (Str × Value)} {chunk : Bytes}
    (line : Utf8.decodeReplace chunk = lit "data: " ++ (123::inside ++ [125]) ++ [10])
    (single : 10 ∉ inside)
    (reads : Json.loads format (fun pairs => .ok (Dict.ofPairs pairs)) (123::inside ++ [125]) =
      (.ok (.dict [(lit "usage",.dict usage)]) : Except (Json.Error Unit) Value)) :
    StreamUsageCollector.new.feed tables format chunk = StreamUsageCollector.new.add usage := by
  obtain ⟨opens,closes,letter,blank⟩ := brace_space tables
  have own : lookup (lit "usage") [(lit "usage",.dict usage)] = some (.dict usage) := by
    simp [lookup]
  have whole : tables.strip (lit "data: " ++ (123::inside ++ [125])) = lit "data: " ++
    (123::inside ++ [125]) := by
    apply Unicode.strip_closed
    · intro code first
      obtain rfl : 100 = code := by simpa [lit] using first
      exact letter
    · rw [← List.append_assoc,List.getLast?_concat]
      intro code last
      cases last
      exact closes
  have payload : tables.strip ((lit "data: " ++ (123::inside ++ [125])).drop 5) =
    123::inside ++ [125] := by
    have spaced : (lit "data: " ++ (123::inside ++ [125])).drop 5 =
      32::(123::inside ++ [125]) := rfl
    have front : tables.strip (32::(123::inside ++ [125])) =
      tables.strip (123::inside ++ [125]) := by
      rw [Unicode.Tables.strip,List.dropWhile_cons_of_pos blank,Unicode.Tables.strip]
    rw [spaced,front]
    apply Unicode.strip_closed
    · intro code first
      obtain rfl : 123 = code := by simpa using first
      exact opens
    · rw [List.getLast?_concat]
      intro code last
      cases last
      exact closes
  have parts : Unicode.split 10 (lit "data: " ++ (123::inside ++ [125]) ++ [10]) =
      [lit "data: " ++ (123::inside ++ [125]),[]] := by
    apply Unicode.split_append
    simp [lit,single]
  have marked : (lit "data:").isPrefixOf (lit "data: " ++ (123::inside ++ [125])) = true := by
    simp [lit]
  have some_ : (123::inside ++ [125]).isEmpty = false ∧ 123::inside ++ [125] ≠ lit "[DONE]" := by
    simp [lit]
  rw [StreamUsageCollector.feed,line]
  simp only [StreamUsageCollector.new,List.nil_append,parts]
  simp only [List.dropLast_cons_cons,List.dropLast_singleton,List.foldl_cons,List.foldl_nil,
    List.getLast?_cons_cons,
    List.getLast?_singleton,Option.getD_some,whole,StreamUsageCollector.consume,marked,
    payload,some_,reads,StreamUsageCollector.usageOf,own]
  simp

end Line

/-- Booleans make no difference to the charge: there are none, or there is a count proper beside them and
they add nothing above the minimum charge. -/
def Indifferent (usage : List (Str × Value)) : Prop :=
  flags usage = [] ∨ (counts usage ≠ [] ∧
    ((flags usage).count true = 0 ∨ ((flags usage).count true = 1 ∧
      ∀ count ∈ counts usage, count = 0)))

theorem counts_nonneg (usage : List (Str × Value)) : ∀ count ∈ counts usage, 0 ≤ count := by
  intro count member
  obtain ⟨key,_,found⟩ := List.mem_filterMap.mp member
  obtain ⟨value,_,strict⟩ := Option.bind_eq_some_iff.mp found
  cases value with
  | int amount =>
    simp only [strictCountOf] at strict
    split_ifs at strict with positive
    cases strict
    exact positive
  | _ => contradiction

private theorem charge_iff {total : Int} (extra : Nat) (positive : 0 ≤ total) :
    max minimumCharge (total + extra) = max minimumCharge total ↔ extra = 0 ∨
    (extra = 1 ∧ total = 0) := by
  unfold minimumCharge
  omega

/-- One record of usage costs the same in the body of an answer and in an event of a stream, whatever the
spelling of the line, exactly when its booleans make no difference. -/
theorem bills_agree_iff (tables : Unicode.Tables) (format : Json.FloatFormat) (inside : Str)
    (usage : List (Str × Value)) (chunk : Bytes)
    (line : Utf8.decodeReplace chunk = lit "data: " ++ (123::inside ++ [125]) ++ [10])
    (single : 10 ∉ inside)
    (reads : Json.loads format (fun pairs => .ok (Dict.ofPairs pairs)) (123::inside ++ [125]) =
      (.ok (.dict [(lit "usage",.dict usage)]) : Except (Json.Error Unit) Value)) :
    actualTokens (.dict [(lit "usage",.dict usage)]) =
      (StreamUsageCollector.new.feed tables format chunk).total ↔
      Indifferent usage := by
  rw [actualTokens_usage,feed_line tables format line single reads,total_add]
  have nonneg : 0 ≤ (counts usage).sum := List.sum_nonneg (counts_nonneg usage)
  have zero : (counts usage).sum = 0 ↔ ∀ count ∈ counts usage, count = 0 := by
    constructor
    · intro none_ count member
      exact List.all_zero_of_le_zero_le_of_sum_eq_zero (counts_nonneg usage) none_ member
    · exact List.sum_eq_zero
  unfold Indifferent
  by_cases uncounted : counts usage = []
  · by_cases unflagged : flags usage = []
    · simp [uncounted,unflagged]
    · simp [uncounted,unflagged]
  · rw [if_neg (fun both => uncounted both.1),if_neg uncounted,Option.some_inj,
      charge_iff _ nonneg,zero]
    constructor
    · exact fun indifferent => Or.inr ⟨uncounted,indifferent⟩
    · rintro (unflagged | ⟨_,indifferent⟩)
      · simp [unflagged]
      · exact indifferent

def mixedUsage : List (Str × Value) :=
  [(lit "input_tokens",.int 10),(lit "output_tokens",.bool true)]

/-- The record between the outer braces, as `json.dumps` writes it. -/
def mixedInside : Str := Json.dumpFields ⟨true,true⟩ [(lit "usage",.dict mixedUsage)]

def mixedChunk : Bytes := lit "data: " ++ (123::mixedInside ++ [125]) ++ [10]

theorem mixed_reads :
    Json.loads .verbatim (fun pairs => .ok (Dict.ofPairs pairs)) (123::mixedInside ++ [125]) =
    (.ok (.dict [(lit "usage",.dict mixedUsage)]) : Except (Json.Error Unit) Value) := by
  have written : 123::mixedInside ++ [125] =
    Json.dumps ⟨true,true⟩ (.dict [(lit "usage",.dict mixedUsage)]) := by
    rw [Json.dumps,mixedInside]
  have sound : Json.Sound .verbatim (.dict [(lit "usage",.dict mixedUsage)]) := by
    simp only [Json.Sound,Json.SoundFields,mixedUsage]
    decide +kernel
  rw [written,Json.loads_dumps _ _ _ _ sound]
  rfl

theorem bills_agree_iff_mixed : actualTokens (.dict [(lit "usage",.dict mixedUsage)]) =
        (StreamUsageCollector.new.feed Unicode.ascii .verbatim mixedChunk).total ↔
        Indifferent mixedUsage :=
  bills_agree_iff Unicode.ascii .verbatim mixedInside mixedUsage mixedChunk (by decide +kernel)
    (by decide +kernel)
    mixed_reads

/-- The answer is billed 11 tokens and the event 10. -/
theorem mixed_usage_billed_apart :
    ¬ ∀ (tables : Unicode.Tables) (format : Json.FloatFormat) (inside : Str) (usage : List (Str × Value)) (chunk : Bytes),
      Utf8.decodeReplace chunk = lit "data: " ++ (123::inside ++ [125]) ++ [10] → 10 ∉ inside →
      Json.loads format (fun pairs => .ok (Dict.ofPairs pairs)) (123::inside ++ [125]) =
        (.ok (.dict [(lit "usage",.dict usage)]) : Except (Json.Error Unit) Value) →
      actualTokens (.dict [(lit "usage",.dict usage)]) =
        (StreamUsageCollector.new.feed tables format chunk).total := by
  intro agree
  have same := agree Unicode.ascii .verbatim mixedInside mixedUsage mixedChunk (by decide +kernel)
    (by decide +kernel)
    mixed_reads
  exact absurd same (by decide +kernel)

end QuilrMcp.Router.Billing
