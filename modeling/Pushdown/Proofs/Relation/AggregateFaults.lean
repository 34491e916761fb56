import Pushdown.Proofs.Relation.Checks

/-!
# Which aggregates are refused, and why

An aggregate can be written as one `GROUP BY` when it groups by a single set of columns that is
its whole group set.  The check never compares the two: it finds that the set is contained, that
it repeats no column and that it is as long, from which the rest follows by counting
(`checkAggregate_eq_ok_iff`).

Where an aggregate is refused, the fault that is reported is one that it has.
-/

namespace Pushdown

/-- The aggregate has the fault.  What is repeated is told by the place where it stands again. -/
inductive AggregateFault.Spoils (width : Nat) (groupSet : List Nat)
    (groupingSets : List (List Nat)) (calls : List AggregateCall) : AggregateFault → Prop
  | groupOutOfRange {column : Nat} (member : column ∈ groupSet) (outside : width ≤ column) :
      Spoils width groupSet groupingSets calls (.groupOutOfRange column)
  | groupRepeated {column : Nat} {before after : List Nat}
      (split : groupSet = before ++ column :: after) (again : column ∈ before) :
      Spoils width groupSet groupingSets calls (.groupRepeated column)
  | setNotContained {columns : List Nat} (member : columns ∈ groupingSets)
      (stray : ¬ columns ⊆ groupSet) :
      Spoils width groupSet groupingSets calls (.setNotContained columns)
  | setRepeatsColumn {columns : List Nat} (member : columns ∈ groupingSets)
      (repeats : ¬ columns.Nodup) :
      Spoils width groupSet groupingSets calls (.setRepeatsColumn columns)
  | setRepeated {columns other : List Nat} {before after : List (List Nat)}
      (split : groupingSets = before ++ columns :: after) (earlier : other ∈ before)
      (same : other.Perm columns) :
      Spoils width groupSet groupingSets calls (.setRepeated columns)
  | notOneFullSet (otherwise : ∀ columns, groupingSets = [columns] → ¬ columns.Perm groupSet) :
      Spoils width groupSet groupingSets calls .notOneFullSet
  | argumentOutOfRange {call : AggregateCall} {argument : Nat} (member : call ∈ calls)
      (own : argument ∈ call.args) (outside : width ≤ argument) :
      Spoils width groupSet groupingSets calls (.argumentOutOfRange argument call.name)

section Faults

variable {width : Nat} {groupSet : List Nat} {groupingSets : List (List Nat)}
  {calls : List AggregateCall} {e : Error}

/-- Group columns are refused for the first that is out of range or was seen before. -/
theorem fault_of_checkGroups {seen columns : List Nat}
    (failed : checkGroups width seen columns = .error e) :
    ∃ before column after, columns = before ++ column :: after ∧
      (e = .invalidAggregate (.groupOutOfRange column) ∧ width ≤ column ∨
        e = .invalidAggregate (.groupRepeated column) ∧ (column ∈ before ∨ column ∈ seen)) := by
  induction columns generalizing seen with
  | nil => cases failed
  | cons column rest ih =>
    rw [checkGroups] at failed
    split at failed
    · rename_i outside
      cases failed
      exact ⟨[], column, rest, rfl, .inl ⟨rfl, outside⟩⟩
    · split at failed
      · rename_i again
        cases failed
        exact ⟨[], column, rest, rfl, .inr ⟨rfl, .inr again⟩⟩
      · obtain ⟨before, other, after, rfl, fault⟩ := ih failed
        refine ⟨column :: before, other, after, rfl, ?_⟩
        -- The columns seen so far are the head and those before it.
        simp only [List.mem_cons] at fault ⊢
        tauto

/-- Grouping sets are refused for the first that is no set of group columns or was seen before. -/
theorem fault_of_checkGroupingSets {seen sets : List (List Nat)}
    (failed : checkGroupingSets groupSet seen sets = .error e) :
    ∃ before columns after, sets = before ++ columns :: after ∧
      (e = .invalidAggregate (.setNotContained columns) ∧ ¬ columns ⊆ groupSet ∨
        e = .invalidAggregate (.setRepeatsColumn columns) ∧ ¬ columns.Nodup ∨
        e = .invalidAggregate (.setRepeated columns) ∧
          ∃ other, (other ∈ before ∨ other ∈ seen) ∧ other.Perm columns) := by
  induction sets generalizing seen with
  | nil => cases failed
  | cons columns rest ih =>
    rw [checkGroupingSets] at failed
    split at failed
    · rename_i stray
      cases failed
      exact ⟨[], columns, rest, rfl, .inl ⟨rfl, stray⟩⟩
    · split at failed
      · rename_i repeats
        cases failed
        exact ⟨[], columns, rest, rfl, .inr (.inl ⟨rfl, repeats⟩)⟩
      · split at failed
        · rename_i again
          cases failed
          obtain ⟨other, member, same⟩ := List.any_eq_true.mp again
          exact ⟨[], columns, rest, rfl,
            .inr (.inr ⟨rfl, other, .inr member, List.isPerm_iff.mp same⟩)⟩
        · obtain ⟨before, others, after, rfl, fault⟩ := ih failed
          refine ⟨columns :: before, others, after, rfl, ?_⟩
          simp only [List.mem_cons] at fault ⊢
          rcases fault with stray | repeats | ⟨rfl, other, place, same⟩
          · exact .inl stray
          · exact .inr (.inl repeats)
          · exact .inr (.inr ⟨rfl, other, by tauto, same⟩)

theorem fault_of_checkCalls (failed : checkCalls width calls = .error e) :
    ∃ call ∈ calls, ∃ argument ∈ call.args,
      e = .invalidAggregate (.argumentOutOfRange argument call.name) ∧ width ≤ argument := by
  induction calls with
  | nil => cases failed
  | cons call rest ih =>
    rw [checkCalls] at failed
    split at failed
    · rename_i argument found
      cases failed
      have outside : width ≤ argument := by simpa using List.find?_some found
      exact ⟨call, .head _, argument, List.mem_of_find?_eq_some found, rfl, outside⟩
    · obtain ⟨other, member, fault⟩ := ih failed
      exact ⟨other, .tail _ member, fault⟩

theorem fault_of_checkAggregate
    (failed : checkAggregate width groupSet groupingSets calls = .error e) :
    ∃ fault, e = .invalidAggregate fault ∧ fault.Spoils width groupSet groupingSets calls := by
  unfold checkAggregate at failed
  rcases Except.bind_eq_error_iff.mp failed with groups | ⟨_, _, rest⟩
  · obtain ⟨before, column, after, rfl, ⟨rfl, outside⟩ | ⟨rfl, again⟩⟩ :=
      fault_of_checkGroups groups
    · exact ⟨_, rfl, .groupOutOfRange (by simp) outside⟩
    · exact ⟨_, rfl, .groupRepeated rfl (by simpa using again)⟩
  clear failed
  rcases Except.bind_eq_error_iff.mp rest with sets | ⟨_, _, shape⟩
  · obtain ⟨before, columns, after, rfl,
      ⟨rfl, stray⟩ | ⟨rfl, repeats⟩ | ⟨rfl, other, place, same⟩⟩ :=
      fault_of_checkGroupingSets sets
    · exact ⟨_, rfl, .setNotContained (by simp) stray⟩
    · exact ⟨_, rfl, .setRepeatsColumn (by simp) repeats⟩
    · exact ⟨_, rfl, .setRepeated rfl (by simpa using place) same⟩
  clear rest
  split at shape
  · rename_i only
    split at shape
    · obtain ⟨call, member, argument, own, rfl, outside⟩ := fault_of_checkCalls shape
      exact ⟨_, rfl, .argumentOutOfRange member own outside⟩
    · rename_i uneven
      cases shape
      refine ⟨_, rfl, .notOneFullSet ?_⟩
      intro columns single perm
      cases single
      exact uneven perm.length_eq
  · rename_i several
    cases shape
    refine ⟨_, rfl, .notOneFullSet ?_⟩
    intro columns single
    exact absurd single (several columns)

end Faults

/-- The check accepts an aggregate exactly if its group columns are in range and differ, its only
grouping set is the group set in some order, and the arguments of its calls are in range.  It
refuses any other for a fault of aggregates, and for one that is there. -/
theorem checkAggregate_accepts_plain (width : Nat) (groupSet : List Nat)
    (groupingSets : List (List Nat)) (calls : List AggregateCall) :
    (checkAggregate width groupSet groupingSets calls = .ok () ↔
      (groupSet.Nodup ∧ ∀ column ∈ groupSet, column < width) ∧
      (∃ columns, groupingSets = [columns] ∧ columns.Perm groupSet) ∧
      ∀ call ∈ calls, ∀ argument ∈ call.args, argument < width) ∧
    ∀ e, checkAggregate width groupSet groupingSets calls = .error e →
      ∃ fault, e = .invalidAggregate fault ∧ fault.Spoils width groupSet groupingSets calls := by
  refine ⟨?_, fun e => fault_of_checkAggregate⟩
  rw [checkAggregate_eq_ok_iff]
  constructor
  · rintro ⟨inRange, distinct, whole, arguments⟩
    exact ⟨⟨distinct, inRange⟩, whole, arguments⟩
  · rintro ⟨⟨distinct, inRange⟩, whole, arguments⟩
    exact ⟨inRange, distinct, whole, arguments⟩

end Pushdown
