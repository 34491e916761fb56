import Pushdown.Proofs.Naming

/-!
# Names are allotted in turn

`Allots taken name given` says what a request for a name is given while others are taken: the name
itself if it is free, and else the name with the least suffix that makes it so.  There is always
exactly one such name, and it depends on nothing but which names are taken (`freeName_congr`).  So
it does not matter in which order they are kept: `distinct`, which looks at the results so far,
and `Aliases`, which remembers all that it has handed out, give the same names to the same
requests.
-/

namespace Pushdown

namespace Naming

/-- What a request for a name is given while some names are taken. -/
inductive Allots (taken : List String) (name : String) : String → Prop
  | kept (free : name ∉ taken) : Allots taken name name
  | suffixed {n : Nat} (clash : name ∈ taken) (free : name ++ toString n ∉ taken)
      (least : ∀ m < n, name ++ toString m ∈ taken) : Allots taken name (name ++ toString n)

section Allots

variable {taken others : List String} {name given : String}

/-- All suffixes below the one that is chosen are taken. -/
theorem mem_of_lt_freeSuffix {m : Nat} (below : m < freeSuffix taken name) :
    name ++ toString m ∈ taken := by
  unfold freeSuffix at below
  cases found : (List.range taken.length).find? fun n => !taken.contains (name ++ toString n) with
  | some n =>
    rw [found, Option.getD_some] at below
    obtain ⟨_, _, earlier⟩ := List.find?_range_eq_some.mp found
    simpa using earlier m below
  | none =>
    rw [found, Option.getD_none] at below
    simpa using List.find?_eq_none.mp found m (List.mem_range.mpr below)

theorem freeName_allots (taken : List String) (name : String) :
    Allots taken name (freeName taken name) := by
  unfold freeName
  split
  · rename_i clash
    apply Allots.suffixed
    · simpa using clash
    · exact suffixed_notMem taken name
    · exact fun m below => mem_of_lt_freeSuffix below
  · rename_i free
    apply Allots.kept
    simpa using free

/-- Nothing else is given: two suffixes that are both least are the same. -/
theorem Allots.eq_freeName (allots : Allots taken name given) : given = freeName taken name := by
  cases allots with
  | kept free => rw [freeName, if_neg (by simpa using free)]
  | @suffixed n clash free least =>
    rw [freeName, if_pos (by simpa using clash)]
    rcases Nat.lt_trichotomy n (freeSuffix taken name) with below | same | above
    · exact absurd (mem_of_lt_freeSuffix below) free
    · rw [same]
    · exact absurd (least _ above) (suffixed_notMem taken name)

theorem Allots.congr (same : ∀ other, other ∈ taken ↔ other ∈ others)
    (allots : Allots taken name given) :
    Allots others name given := by
  cases allots with
  | kept free =>
    apply Allots.kept
    rwa [← same]
  | suffixed clash free least =>
    simp only [same] at clash free least
    exact .suffixed clash free least

/-- Only which names are taken counts, not their order. -/
theorem freeName_congr (same : ∀ other, other ∈ taken ↔ other ∈ others) (name : String) :
    freeName taken name = freeName others name :=
  ((freeName_allots taken name).congr same).eq_freeName

end Allots

/-! ## Names of a row -/

theorem distinctFrom_append (taken first second : List String) :
    distinctFrom taken (first ++ second) =
      distinctFrom taken first ++ distinctFrom (taken ++ distinctFrom taken first) second := by
  induction first generalizing taken with
  | nil => simp [distinctFrom]
  | cons name rest ih => simp [distinctFrom, ih]

theorem distinct_isPrefix (first second : List String) :
    distinct first <+: distinct (first ++ second) := by
  unfold distinct
  rw [distinctFrom_append]
  exact List.prefix_append _ _

/-- Names that neither are taken nor repeat stay as they are. -/
theorem distinctFrom_eq_self {taken names : List String} (nodup : names.Nodup)
    (free : ∀ name ∈ names, name ∉ taken) : distinctFrom taken names = names := by
  induction names generalizing taken with
  | nil => rfl
  | cons name rest ih =>
    obtain ⟨once, nodup⟩ := List.nodup_cons.mp nodup
    obtain ⟨own, free⟩ := List.forall_mem_cons.mp free
    have kept : freeName taken name = name := (Allots.kept own).eq_freeName.symm
    rw [distinctFrom, kept, ih nodup]
    intro other member
    rw [List.mem_append, List.mem_singleton, not_or]
    refine ⟨free other member, ?_⟩
    intro same
    exact once (same ▸ member)

theorem distinct_eq_self {names : List String} (nodup : names.Nodup) : distinct names = names :=
  distinctFrom_eq_self nodup fun _ _ => List.not_mem_nil

/-- Each name is the one that is free behind the results before it. -/
theorem getElem?_distinctFrom (taken names : List String) (i : Nat) :
    (distinctFrom taken names)[i]? =
      names[i]?.map (freeName (taken ++ (distinctFrom taken names).take i)) := by
  induction names generalizing taken i with
  | nil => simp [distinctFrom]
  | cons name rest ih =>
    cases i with
    | zero => simp [distinctFrom]
    | succ i => simp [distinctFrom, ih]

theorem allots_getElem? {names : List String} {i : Nat} {name given : String}
    (own : names[i]? = some name) (result : (distinct names)[i]? = some given) :
    Allots ((distinct names).take i) name given := by
  rw [distinct, getElem?_distinctFrom, own] at result
  cases result
  exact freeName_allots _ _

end Naming

/-! ## Names of a statement -/

namespace Aliases

/-- A request for a name: for a given one, or for the next one of a derived table. -/
inductive Request where
  | name (name : String)
  | next

/-- The name that a request is given, and the names taken from then on. -/
def answer (names : Aliases) : Request → String × Aliases
  | .name name => names.reserve name
  | .next => names.next

/-- The names that requests are given, one after the other. -/
def answers (names : Aliases) : List Request → List String
  | [] => []
  | request :: rest =>
    let (given, after) := names.answer request
    given :: after.answers rest

theorem answer_fresh (names : Aliases) (request : Request) :
    (names.answer request).1 ∉ names.taken ∧
      (names.answer request).2.taken = (names.answer request).1 :: names.taken := by
  cases request with
  | name name => exact reserve_fresh rfl
  | next => exact reserve_fresh rfl

/-- No name is handed out twice, nor one that was taken before. -/
theorem answers_nodup (names : Aliases) (requests : List Request) :
    (names.answers requests).Nodup ∧ ∀ given ∈ names.answers requests, given ∉ names.taken := by
  induction requests generalizing names with
  | nil => simp [answers]
  | cons request rest ih =>
    obtain ⟨free, taken⟩ := names.answer_fresh request
    obtain ⟨nodup, apart⟩ := ih (names.answer request).2
    rw [taken] at apart
    simp only [answers, List.nodup_cons, List.forall_mem_cons]
    refine ⟨⟨fun again => apart _ again (.head _), nodup⟩, free, ?_⟩
    intro given member before
    exact apart given member (.tail _ before)

/-- The names kept in any order, requests are given what they are given as fields of a row. -/
theorem answers_eq_distinctFrom {names : Aliases} {taken : List String}
    (same : ∀ other, other ∈ names.taken ↔ other ∈ taken) (requests : List String) :
    names.answers (requests.map .name) = Naming.distinctFrom taken requests := by
  induction requests generalizing names taken with
  | nil => rfl
  | cons name rest ih =>
    have given : Naming.freeName names.taken name = Naming.freeName taken name :=
      Naming.freeName_congr same name
    rw [List.map_cons, answers, Naming.distinctFrom]
    apply congr (congrArg _ given)
    apply ih
    intro other
    simp [same, given, or_comm]

end Aliases

/-- Making names distinct gives as many names, none of them twice: each name itself if no result
before it has it, and else with the least suffix that none of them has.  It changes nothing the
second time, and names to the right of others do not change these, so that fields that differ keep
their names as the left part of a joined row.  Names handed out one by one for a statement are the
same, and in no sequence of requests, whatever was taken before, is a name handed out twice. -/
theorem Naming.distinct_allots_in_turn (names : List String) :
    (distinct names).length = names.length ∧ (distinct names).Nodup ∧
      (∀ i name given, names[i]? = some name → (distinct names)[i]? = some given →
        Allots ((distinct names).take i) name given) ∧
      distinct (distinct names) = distinct names ∧
      (∀ more, distinct names <+: distinct (names ++ more)) ∧
      (∀ right, names.Nodup → names <+: Fields.joined names right) ∧
      Aliases.answers {} (names.map .name) = distinct names ∧
      ∀ (before : Aliases) (requests : List Aliases.Request),
        (before.answers requests).Nodup ∧
        ∀ given ∈ before.answers requests, given ∉ before.taken := by
  refine ⟨distinct_length names, distinct_nodup names, fun i name given => allots_getElem?,
    distinct_eq_self (distinct_nodup names), distinct_isPrefix names, fun right nodup => ?_, ?_,
    Aliases.answers_nodup⟩
  · rw [Fields.joined]
    nth_rewrite 1 [← distinct_eq_self nodup]
    exact distinct_isPrefix names right
  · exact Aliases.answers_eq_distinctFrom (fun _ => Iff.rfl) names

/-- A suffixed name may clash with a later one, and that with one that was suffixed itself. -/
theorem Naming.distinct_allots_in_turn_emp :
    distinct ["emp", "emp", "emp0", "emp0", "emp"] = ["emp", "emp0", "emp00", "emp01", "emp1"] ∧
      (Aliases.answers {} (["emp", "emp", "emp0", "emp0", "emp"].map .name)) =
        ["emp", "emp0", "emp00", "emp01", "emp1"] ∧
      ["emp", "emp0"] <+: Fields.joined ["emp", "emp0"] ["emp"] ∧
      (Aliases.answers {} [.next, .name "t0", .next, .next]).Nodup := by
  obtain ⟨_, _, _, _, _, _, turns, _⟩ :=
    Naming.distinct_allots_in_turn ["emp", "emp", "emp0", "emp0", "emp"]
  obtain ⟨_, _, _, _, _, keeps, _, once⟩ := Naming.distinct_allots_in_turn ["emp", "emp0"]
  have named : distinct ["emp", "emp", "emp0", "emp0", "emp"] =
      ["emp", "emp0", "emp00", "emp01", "emp1"] := by decide +kernel
  exact ⟨named, turns.trans named, keeps ["emp"] (by decide), (once {} _).1⟩

end Pushdown
