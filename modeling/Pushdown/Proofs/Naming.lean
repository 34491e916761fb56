import Mathlib.Data.List.Nodup
import Mathlib.Data.List.Perm.Subperm
import Mathlib.Tactic.Push
import Pushdown.Relation.Plan

/-!
# Names handed out are free

A suffix up to the number of taken names is free, because decimal suffixes differ: among one more
of them than there are taken names some is not taken.  So `freeName` never gives a taken name,
`distinct` never gives a name twice, and `reserve` never hands out a name again.
-/

namespace Pushdown

namespace Naming

/-- Different suffixes make different names. -/
theorem suffixed_injective (name : String) :
    Function.Injective fun n : Nat => name ++ toString n := by
  intro m n same
  have texts : toString m = toString n := (String.append_right_inj name).mp same
  rw [Nat.toString_eq_ofList_toDigits, Nat.toString_eq_ofList_toDigits] at texts
  have digits : Nat.toDigits 10 m = Nat.toDigits 10 n := String.ofList_injective texts
  calc m = Nat.ofDigitChars 10 (Nat.toDigits 10 m) 0 := Nat.ofDigitChars_ten_toDigits.symm
    _ = Nat.ofDigitChars 10 (Nat.toDigits 10 n) 0 := by rw [digits]
    _ = n := Nat.ofDigitChars_ten_toDigits

/-- Some suffix up to the number of taken names is free. -/
theorem exists_free_suffix (taken : List String) (name : String) :
    ∃ n ≤ taken.length, name ++ toString n ∉ taken := by
  by_contra none
  push Not at none
  let candidates := (List.range (taken.length + 1)).map fun n => name ++ toString n
  have distinct : candidates.Nodup := List.nodup_range.map (suffixed_injective name)
  have contained : candidates ⊆ taken := by
    intro candidate member
    obtain ⟨n, below, rfl⟩ := List.mem_map.mp member
    exact none n (Nat.lt_succ_iff.mp (List.mem_range.mp below))
  have bound := (distinct.subperm contained).length_le
  simp only [candidates, List.length_map, List.length_range] at bound
  omega

theorem suffixed_notMem (taken : List String) (name : String) :
    name ++ toString (freeSuffix taken name) ∉ taken := by
  unfold freeSuffix
  cases found : (List.range taken.length).find? fun n => !taken.contains (name ++ toString n) with
  | some n => simpa using List.find?_some found
  | none =>
    obtain ⟨n, bound, free⟩ := exists_free_suffix taken name
    have tried := List.find?_eq_none.mp found
    rcases Nat.lt_or_eq_of_le bound with below | rfl
    · exact absurd free (by simpa using tried n (List.mem_range.mpr below))
    · exact free

/-- The name that is given is not taken. -/
theorem freeName_notMem (taken : List String) (name : String) : freeName taken name ∉ taken := by
  unfold freeName
  split
  · exact suffixed_notMem taken name
  · rename_i free
    simpa using free

theorem distinctFrom_length (taken names : List String) :
    (distinctFrom taken names).length = names.length := by
  induction names generalizing taken with
  | nil => rfl
  | cons name rest ih => simp [distinctFrom, ih]

/-- The names given differ from the taken ones and from each other. -/
theorem distinctFrom_nodup (taken names : List String) :
    (distinctFrom taken names).Nodup ∧ ∀ name ∈ distinctFrom taken names, name ∉ taken := by
  induction names generalizing taken with
  | nil => simp [distinctFrom]
  | cons name rest ih =>
    obtain ⟨nodup, free⟩ := ih (taken ++ [freeName taken name])
    simp only [distinctFrom, List.nodup_cons, List.forall_mem_cons]
    refine ⟨⟨fun again => free _ again (by simp), nodup⟩, freeName_notMem taken name, ?_⟩
    intro other member
    exact fun mem => free other member (List.mem_append_left _ mem)

theorem distinct_length (names : List String) : (distinct names).length = names.length :=
  distinctFrom_length [] names

theorem distinct_nodup (names : List String) : (distinct names).Nodup :=
  (distinctFrom_nodup [] names).1

end Naming

theorem Fields.joined_length (left right : Fields) :
    (left.joined right).length = left.length + right.length := by
  rw [Fields.joined, Naming.distinct_length, List.length_append]

theorem Fields.joined_nodup (left right : Fields) : (left.joined right).Nodup :=
  Naming.distinct_nodup _

theorem aggregateFields_length (input : Fields) (groupSet : List Nat)
    (calls : List AggregateCall) :
    (aggregateFields input groupSet calls).length = groupSet.length + calls.length := by
  rw [aggregateFields, Naming.distinct_length, List.length_append, List.length_map,
    List.length_map]

namespace Aliases

/-- The name handed out was free and is taken from then on. -/
theorem reserve_fresh {names after : Aliases} {base name : String}
    (reserved : names.reserve base = (name, after)) :
    name ∉ names.taken ∧ after.taken = name :: names.taken := by
  cases reserved
  exact ⟨Naming.freeName_notMem _ _, rfl⟩

end Aliases

end Pushdown
