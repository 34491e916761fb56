import Mathlib.Data.List.Nodup
import Pushdown.Json.Decoder
import Pushdown.Proofs.Outcome

/-!
# Decoders that undo an encoding

`Json.Reads decode j a` says that the decoder finds the value in the tree whenever it is given as
many levels as arrays and objects are nested there.  The rules below are those of the parts that
decoders are made of: lists, records, fields that may be null and choices by name.
-/

namespace Pushdown.Json

variable {α : Type}

/-! ## Nesting -/

mutual

/-- How deeply arrays and objects are nested in a tree. -/
def depth : Json → Nat
  | .array items => itemsDepth items + 1
  | .object members => membersDepth members + 1
  | _ => 0

def itemsDepth : List Json → Nat
  | [] => 0
  | item :: rest => max item.depth (itemsDepth rest)

def membersDepth : List (String × Json) → Nat
  | [] => 0
  | (_, value) :: rest => max value.depth (membersDepth rest)

end

theorem itemsDepth_le_iff {items : List Json} {levels : Nat} :
    itemsDepth items ≤ levels ↔ ∀ item ∈ items, item.depth ≤ levels := by
  induction items with
  | nil => simp [itemsDepth]
  | cons item rest ih => rw [itemsDepth, Nat.max_le, ih, List.forall_mem_cons]

theorem membersDepth_le_iff {members : List (String × Json)} {levels : Nat} :
    membersDepth members ≤ levels ↔ ∀ member ∈ members, member.2.depth ≤ levels := by
  induction members with
  | nil => simp [membersDepth]
  | cons member rest ih =>
    obtain ⟨name, value⟩ := member
    rw [membersDepth, Nat.max_le, ih, List.forall_mem_cons]

/-- An array takes one level, and leaves the others to its items. -/
theorem depth_array_le_iff {items : List Json} {levels : Nat} :
    (Json.array items).depth ≤ levels ↔
      ∃ below, levels = below + 1 ∧ ∀ item ∈ items, item.depth ≤ below := by
  simp only [depth, ← itemsDepth_le_iff]
  constructor
  · intro fits
    exact ⟨levels - 1, by omega, by omega⟩
  · rintro ⟨below, rfl, fits⟩
    omega

/-- An object takes one level, and leaves the others to its members. -/
theorem depth_object_le_iff {members : List (String × Json)} {levels : Nat} :
    (Json.object members).depth ≤ levels ↔
      ∃ below, levels = below + 1 ∧ ∀ member ∈ members, member.2.depth ≤ below := by
  simp only [depth, ← membersDepth_le_iff]
  constructor
  · intro fits
    exact ⟨levels - 1, by omega, by omega⟩
  · rintro ⟨below, rfl, fits⟩
    omega

/-! ## Reading back -/

/-- The decoder finds the value in the tree, within any number of levels that the tree fits in. -/
def Reads (decode : Decoder α) (j : Json) (a : α) : Prop :=
  ∀ levels, j.depth ≤ levels → decode levels j = some a

theorem nat?_ofNat {n : Nat} (small : n < UInt64.size) : nat? (ofNat n) = some n := by
  simp [nat?, ofNat, small]

theorem int64?_integer (n : Int64) : int64? (.integer n.toInt) = some n := by
  have least : Int64.minValue.toInt ≤ n.toInt := Int64.le_iff_toInt_le.mp (Int64.minValue_le n)
  have greatest : n.toInt ≤ Int64.maxValue.toInt := Int64.le_iff_toInt_le.mp (Int64.le_maxValue n)
  rw [int64?, if_pos ⟨least, greatest⟩, Int64.ofInt_toInt]

theorem double?_ofDouble {x : Binary64} (finite : x.isFinite = true) :
    double? (ofDouble x) = some x := by
  simp [double?, ofDouble, finite]

theorem items?_map {decode : Json → Option α} {encode : α → Json} {values : List α}
    (each : ∀ a ∈ values, decode (encode a) = some a) :
    items? decode (.array (values.map encode)) = some values := by
  rw [items?, Option.mapM_eq_some_iff, List.forall₂_map_left_iff, List.forall₂_same]
  exact each

theorem reads_list? {decode : Json → Option α} {encode : α → Json} {values : List α}
    (each : ∀ a ∈ values, decode (encode a) = some a) :
    Reads (list? decode) (ofList encode values) values := by
  intro levels fits
  obtain ⟨below, rfl, _⟩ := depth_array_le_iff.mp fits
  exact items?_map each

theorem reads_strings (texts : List String) : Reads (list? string?) (ofStrings texts) texts :=
  reads_list? fun _ _ => rfl

theorem reads_nats {numbers : List Nat} (small : ∀ n ∈ numbers, n < UInt64.size) :
    Reads (list? nat?) (ofNats numbers) numbers :=
  reads_list? fun n member => nat?_ofNat (small n member)

/-- A value that may be missing is read back if no value is written as null. -/
theorem optional_ofOption {decode : Json → Option α} {encode : α → Json} {value : Option α}
    (written : ∀ a ∈ value, encode a ≠ .null) (each : ∀ a ∈ value, decode (encode a) = some a) :
    optional decode (some (ofOption encode value)) = some value := by
  cases value with
  | none => rfl
  | some a =>
    rw [ofOption, optional, nullable?, each a rfl]
    · rfl
    · exact written a rfl

theorem lookup_of_mem {members : List (String × Json)} (distinct : (members.map Prod.fst).Nodup)
    {member : String × Json} (mem : member ∈ members) :
    members.lookup member.1 = some member.2 := by
  induction members with
  | nil => exact (List.not_mem_nil mem).elim
  | cons first rest ih =>
    obtain ⟨fresh, others⟩ := List.nodup_cons.mp distinct
    rcases List.mem_cons.mp mem with rfl | later
    · exact List.lookup_cons_self
    · have other : (member.1 == first.1) = false := by
        rw [beq_eq_false_iff_ne]
        rintro same
        exact fresh (same ▸ List.mem_map_of_mem later)
      rw [List.lookup_cons, other]
      exact ih others later

/-- A record that is written as an object of its fields, each under its own name. -/
theorem fields?_object {names : List String} {members : List (String × Json)}
    (named : members.map Prod.fst = names) (distinct : names.Nodup) (allowShort : Bool) :
    fields? names allowShort (.object members) =
      some (members.map fun member => some member.2) := by
  subst named
  have once : ∀ name, (members.filter (·.1 == name)).length ≤ 1 := by
    intro name
    have count := List.nodup_iff_count_le_one.mp distinct name
    rw [List.count, List.countP_map] at count
    rw [← List.countP_eq_length_filter]
    exact count
  simp only [fields?, once, decide_true, List.all_eq_true, implies_true, if_true, List.map_map]
  exact congrArg some (List.map_congr_left fun member mem => lookup_of_mem distinct mem)

/-- A value that is written as its name, which is that of no other, is found by it. -/
theorem find?_name {options : List α} {name : α → String} (distinct : (options.map name).Nodup)
    {a : α} (member : a ∈ options) :
    (options.find? fun option => name option == name a) = some a := by
  induction options with
  | nil => exact (List.not_mem_nil member).elim
  | cons first rest ih =>
    obtain ⟨fresh, others⟩ := List.nodup_cons.mp distinct
    rcases List.mem_cons.mp member with rfl | later
    · simp
    · have other : name first ≠ name a := fun same => fresh (same ▸ List.mem_map_of_mem later)
      rw [List.find?_cons_of_neg (by simpa using other)]
      exact ih others later

theorem choice?_name {options : List α} {name : α → String} (distinct : (options.map name).Nodup)
    {a : α} (member : a ∈ options) (levels : Nat) :
    choice? options name levels (.string (name a)) = some a :=
  find?_name distinct member

end Pushdown.Json
