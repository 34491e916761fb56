import Mathlib.Data.List.Forall2

/-!
# Outcomes of computations that may fail

When a sequence of steps in `Except` or in `Option` succeeds, each of the steps has: the rules
that take such a sequence apart, also for a step on each entry of a list.
-/

namespace Pushdown

/-- A relation between the entries of two lists may be changed using where they come from. -/
theorem forall₂_imp_of_mem {α β : Type} {R S : α → β → Prop} {xs : List α} {ys : List β}
    (paired : List.Forall₂ R xs ys) (imp : ∀ x ∈ xs, ∀ y, R x y → S x y) :
    List.Forall₂ S xs ys := by
  induction paired with
  | nil => exact .nil
  | cons first _ ih =>
    obtain ⟨head, tail⟩ := List.forall_mem_cons.mp imp
    exact .cons (head _ first) (ih tail)

/-- Lists agree under two functions when their entries do. -/
theorem map_eq_map_iff_forall₂ {α β γ : Type} {f : α → γ} {g : β → γ} {xs : List α}
    {ys : List β} :
    xs.map f = ys.map g ↔ List.Forall₂ (fun x y => f x = g y) xs ys := by
  rw [← List.forall₂_eq_eq_eq, List.forall₂_map_left_iff, List.forall₂_map_right_iff]

namespace Except

variable {ε α β : Type}

theorem bind_eq_ok_iff {x : Except ε α} {f : α → Except ε β} {b : β} :
    (x >>= f) = .ok b ↔ ∃ a, x = .ok a ∧ f a = .ok b := by
  cases x with
  | error e => exact ⟨nofun, fun ⟨_, failed, _⟩ => nomatch failed⟩
  | ok a =>
    constructor
    · intro done
      exact ⟨a, rfl, done⟩
    · rintro ⟨_, same, done⟩
      cases same
      exact done

/-- A sequence fails where its first failing step does. -/
theorem bind_eq_error_iff {x : Except ε α} {f : α → Except ε β} {e : ε} :
    (x >>= f) = .error e ↔ x = .error e ∨ ∃ a, x = .ok a ∧ f a = .error e := by
  cases x with
  | error first =>
    constructor
    · intro failed
      cases failed
      exact .inl rfl
    · rintro (same | ⟨_, other, _⟩)
      · cases same
        rfl
      · cases other
  | ok a =>
    constructor
    · intro failed
      exact .inr ⟨a, rfl, failed⟩
    · rintro (other | ⟨_, same, failed⟩)
      · cases other
      · cases same
        exact failed

theorem map_eq_ok_iff {x : Except ε α} {f : α → β} {b : β} :
    (f <$> x) = .ok b ↔ ∃ a, x = .ok a ∧ f a = b := by
  cases x with
  | error e => exact ⟨nofun, fun ⟨_, failed, _⟩ => nomatch failed⟩
  | ok a =>
    constructor
    · intro done
      exact ⟨a, rfl, Except.ok.inj done⟩
    · rintro ⟨_, same, rfl⟩
      cases same
      rfl

theorem pure_eq_ok_iff {a b : α} : (pure a : Except ε α) = .ok b ↔ a = b :=
  ⟨Except.ok.inj, congrArg _⟩

/-- Only the first step can fail. -/
theorem exists_bind_pure_iff {x : Except ε α} {f : α → β} :
    (∃ b, (x >>= fun a => pure (f a)) = .ok b) ↔ ∃ a, x = .ok a := by
  cases x with
  | error e =>
    have failed : ∀ b : β, (.error e : Except ε β) ≠ .ok b := by simp
    exact iff_of_false (not_exists.mpr failed) (by simp)
  | ok a => exact iff_of_true ⟨f a, rfl⟩ ⟨a, rfl⟩

/-- A step on each entry of a list succeeds when it does on each of them. -/
theorem mapM_eq_ok_iff {f : α → Except ε β} {xs : List α} {ys : List β} :
    xs.mapM f = .ok ys ↔ List.Forall₂ (fun x y => f x = .ok y) xs ys := by
  induction xs generalizing ys with
  | nil =>
    rw [List.mapM_nil, pure_eq_ok_iff, List.forall₂_nil_left_iff]
    exact eq_comm
  | cons x rest ih =>
    rw [List.mapM_cons, bind_eq_ok_iff]
    constructor
    · rintro ⟨y, first, others⟩
      obtain ⟨ys, tail, whole⟩ := bind_eq_ok_iff.mp others
      rw [pure_eq_ok_iff] at whole
      subst whole
      exact .cons first (ih.mp tail)
    · intro all
      cases all with
      | cons first others =>
        exact ⟨_, first, bind_eq_ok_iff.mpr ⟨_, ih.mpr others, rfl⟩⟩

/-- Steps that agree on the entries of a list give the same on the whole of it. -/
theorem mapM_congr {f g : α → Except ε β} {xs : List α} (same : ∀ x ∈ xs, f x = g x) :
    xs.mapM f = xs.mapM g := by
  induction xs with
  | nil => rfl
  | cons x rest ih =>
    obtain ⟨head, tail⟩ := List.forall_mem_cons.mp same
    rw [List.mapM_cons, List.mapM_cons, head, ih tail]

theorem exists_mapM_eq_ok_iff {f : α → Except ε β} {xs : List α} :
    (∃ ys, xs.mapM f = .ok ys) ↔ ∀ x ∈ xs, ∃ y, f x = .ok y := by
  simp only [mapM_eq_ok_iff]
  constructor
  · rintro ⟨ys, each⟩ x member
    induction each with
    | nil => exact (List.not_mem_nil member).elim
    | cons first _ ih =>
      rcases List.mem_cons.mp member with rfl | later
      · exact ⟨_, first⟩
      · exact ih later
  · intro each
    induction xs with
    | nil => exact ⟨[], .nil⟩
    | cons x rest ih =>
      rcases List.forall_mem_cons.mp each with ⟨⟨y, first⟩, others⟩
      rcases ih others with ⟨ys, tail⟩
      exact ⟨y :: ys, .cons first tail⟩

/-- Each result of a step on the entries of a list is that of an entry. -/
theorem exists_of_mem_mapM {f : α → Except ε β} {xs : List α} {ys : List β}
    (done : xs.mapM f = .ok ys) {y : β} (member : y ∈ ys) : ∃ x ∈ xs, f x = .ok y := by
  have each := mapM_eq_ok_iff.mp done
  clear done
  induction each with
  | nil => exact (List.not_mem_nil member).elim
  | cons first _ ih =>
    rcases List.mem_cons.mp member with rfl | later
    · exact ⟨_, List.mem_cons_self, first⟩
    · obtain ⟨x, mem, done⟩ := ih later
      exact ⟨x, List.mem_cons_of_mem _ mem, done⟩

/-- A check of each entry of a list succeeds when it does on each of them. -/
theorem forM_eq_ok_iff {f : α → Except ε Unit} {xs : List α} :
    xs.forM f = .ok () ↔ ∀ x ∈ xs, f x = .ok () := by
  induction xs with
  | nil => exact ⟨fun _ _ member => (List.not_mem_nil member).elim, fun _ => rfl⟩
  | cons x rest ih =>
    rw [List.forall_mem_cons, ← ih]
    change (f x >>= fun _ => rest.forM f) = .ok () ↔ _
    rw [bind_eq_ok_iff]
    exact ⟨fun ⟨_, first, others⟩ => ⟨first, others⟩, fun ⟨first, others⟩ => ⟨_, first, others⟩⟩

end Except

namespace Option

variable {α β : Type}

/-- A step on each entry of a list succeeds when it does on each of them. -/
theorem mapM_eq_some_iff {f : α → Option β} {xs : List α} {ys : List β} :
    xs.mapM f = some ys ↔ List.Forall₂ (fun x y => f x = some y) xs ys := by
  induction xs generalizing ys with
  | nil =>
    rw [List.mapM_nil, List.forall₂_nil_left_iff]
    exact ⟨fun same => (Option.some.inj same).symm, fun same => congrArg some same.symm⟩
  | cons x rest ih =>
    rw [List.mapM_cons]
    constructor
    · intro done
      obtain ⟨y, first, others⟩ := Option.bind_eq_some_iff.mp done
      obtain ⟨ys, tail, whole⟩ := Option.bind_eq_some_iff.mp others
      cases whole
      exact .cons first (ih.mp tail)
    · intro all
      cases all with
      | cons first others =>
        exact Option.bind_eq_some_iff.mpr
          ⟨_, first, Option.bind_eq_some_iff.mpr ⟨_, ih.mpr others, rfl⟩⟩

end Option

end Pushdown
