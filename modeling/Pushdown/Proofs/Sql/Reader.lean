import Pushdown.Proofs.Sql.Grammar

/-!
# Reading expressions

A reader for the grammar, by descent through the levels.  What is read comes with the lexemes that
are left, which are fewer than there were.
-/

namespace Pushdown.Sql.Reader

/-- What was read from the front of a list of lexemes, and the rest of that list. -/
structure Reading (α : Type) (length : Nat) where
  value : α
  rest : List Lexeme
  shorter : rest.length < length

namespace Reading

variable {α β : Type} {m n : Nat}

/-- The reading, seen from further ahead. -/
def widen (r : Reading α m) (le : m ≤ n) : Reading α n :=
  ⟨r.value, r.rest, Nat.lt_of_lt_of_le r.shorter le⟩

/-- The reading with another value, seen from further ahead. -/
def map (f : α → β) (r : Reading α m) (le : m ≤ n) : Reading β n :=
  ⟨f r.value, r.rest, Nat.lt_of_lt_of_le r.shorter le⟩

/-- The reading without its bound. -/
def pair (r : Reading α m) : α × List Lexeme := (r.value, r.rest)

/-- A step that only looks at what was read and at the rest. -/
theorem map_pair_bind {x : Option (Reading α m)} {f : Reading α m → Option (Reading β n)}
    {g : α → List Lexeme → Option (β × List Lexeme)}
    (step : ∀ r, (f r).map pair = g r.value r.rest) :
    (x >>= f).map pair = (x.map pair).bind fun r => g r.1 r.2 := by
  cases x with
  | none => rfl
  | some r => exact step r

end Reading

/-- The list without the lexeme at its front. -/
def expect (t : Lexeme) : (ts : List Lexeme) → Option (Reading Unit ts.length)
  | [] => none
  | first :: rest => if first = t then some ⟨(), rest, Nat.lt_succ_self _⟩ else none

/-- The name of a function or of a type at the front of the list. -/
def verbatim? : (ts : List Lexeme) → Option (Reading String ts.length)
  | .verbatim text :: rest => some ⟨text, rest, Nat.lt_succ_self _⟩
  | _ => none

/-- The operator of the level that the lexeme is. -/
def connective? (level : Nat) : Lexeme → Option Connective
  | .word text => connectives.find? fun c => decide (c.symbol = text) && decide (c.level = level)
  | _ => none

/-- A test for null behind an operand, which is one of the fourth level. -/
def nullTest? (level : Nat) (ts : List Lexeme) : Option (Reading ScalarOp ts.length) :=
  if level = 4 then do
    let begun ← expect (.word "IS") ts
    have := begun.shorter
    match expect (.word "NOT") begun.rest with
    | some denied => do
      have := denied.shorter
      let ended ← expect (.word "NULL") denied.rest
      return ended.map (fun _ => .isNotNull) (by omega)
    | none => do
      let ended ← expect (.word "NULL") begun.rest
      return ended.map (fun _ => .isNull) (by omega)
  else none

mutual

/-- An expression of the level. -/
def tree (level : Nat) (ts : List Lexeme) : Option (Reading Node ts.length) :=
  if 7 ≤ level then factor ts
  else if level = 3 then
    match expect (.word "NOT") ts with
    | some denied => do
      have := denied.shorter
      let operand ← tree 3 denied.rest
      return operand.map (fun node => .scalarCall .not [node]) (by omega)
    | none => tree 4 ts
  else do
    let left ← tree (level + 1) ts
    have := left.shorter
    let whole ← more level left.value left.rest
    return whole.widen (by omega)
termination_by (ts.length, 1 + (7 - level))

/-- What follows an operand at the level: operators of the level with their operands. -/
def more (level : Nat) (left : Node) (ts : List Lexeme) : Option (Reading Node (ts.length + 1)) :=
  match ts with
  | [] => some ⟨left, [], Nat.lt_succ_self _⟩
  | t :: rest =>
    match connective? level t with
    | some c => do
      let right ← tree (level + 1) rest
      have := right.shorter
      let whole ← more level (.scalarCall c.op [left, right.value]) right.rest
      return whole.widen (by grind)
    | none =>
      match nullTest? level (t :: rest) with
      | some test => do
        have := test.shorter
        let whole ← more level (.scalarCall test.value [left]) test.rest
        return whole.widen (by omega)
      | none => some ⟨left, t :: rest, Nat.lt_succ_self _⟩
termination_by (ts.length, 0)

/-- An expression of the highest level. -/
def factor (ts : List Lexeme) : Option (Reading Node ts.length) :=
  match ts with
  | .identifier parts :: rest => some ⟨.identifier parts, rest, Nat.lt_succ_self _⟩
  | .numeral text :: rest => some ⟨.literal (.decimal text), rest, Nat.lt_succ_self _⟩
  | .string content :: rest => some ⟨.literal (.string content), rest, Nat.lt_succ_self _⟩
  | .verbatim name :: rest => do
    let opened ← expect (.word "(") rest
    have := opened.shorter
    match expect (.word ")") opened.rest with
    | some closed =>
      return closed.map (fun _ => .scalarCall (.function name) []) (by grind)
    | none => do
      let operands ← items opened.rest
      return operands.map (fun nodes => .scalarCall (.function name) nodes) (by grind)
  | .word text :: rest =>
    if text = "-" then do
      let operand ← factor rest
      return operand.map (fun node => .scalarCall .negate [node]) (Nat.le_succ _)
    else if text = "NULL" then some ⟨.literal .null, rest, Nat.lt_succ_self _⟩
    else if text = "TRUE" then some ⟨.literal (.boolean true), rest, Nat.lt_succ_self _⟩
    else if text = "FALSE" then some ⟨.literal (.boolean false), rest, Nat.lt_succ_self _⟩
    else if text = "(" then do
      let inner ← tree 0 rest
      have := inner.shorter
      let closed ← expect (.word ")") inner.rest
      return closed.map (fun _ => inner.value) (by grind)
    else if text = "CASE" then do
      let operands ← branches rest
      return operands.map (fun nodes => .scalarCall .caseWhen nodes) (Nat.le_succ _)
    else if text = "CAST" then do
      let opened ← expect (.word "(") rest
      have := opened.shorter
      let operand ← tree 0 opened.rest
      have := operand.shorter
      let typed ← expect (.word "AS") operand.rest
      have := typed.shorter
      let type ← verbatim? typed.rest
      have := type.shorter
      let closed ← expect (.word ")") type.rest
      return closed.map (fun _ => .scalarCall (.cast type.value) [operand.value]) (by grind)
    else none
  | _ => none
termination_by (ts.length, 0)

/-- Expressions with commas between them, up to the closing bracket. -/
def items (ts : List Lexeme) : Option (Reading (List Node) ts.length) := do
  let first ← tree 0 ts
  have := first.shorter
  match expect (.word ",") first.rest with
  | some comma => do
    have := comma.shorter
    let others ← items comma.rest
    return others.map (fun nodes => first.value :: nodes) (by omega)
  | none => do
    let closed ← expect (.word ")") first.rest
    return closed.map (fun _ => [first.value]) (by omega)
termination_by (ts.length, 9)

/-- The branches of a `CASE`, up to its end. -/
def branches (ts : List Lexeme) : Option (Reading (List Node) ts.length) :=
  match expect (.word "END") ts with
  | some ended => some (ended.map (fun _ => []) (Nat.le_refl _))
  | none =>
    match expect (.word "ELSE") ts with
    | some other => do
      have := other.shorter
      let result ← tree 0 other.rest
      have := result.shorter
      let ended ← expect (.word "END") result.rest
      return ended.map (fun _ => [result.value]) (by omega)
    | none => do
      let begun ← expect (.word "WHEN") ts
      have := begun.shorter
      let condition ← tree 0 begun.rest
      have := condition.shorter
      let decided ← expect (.word "THEN") condition.rest
      have := decided.shorter
      let result ← tree 0 decided.rest
      have := result.shorter
      let others ← branches result.rest
      return others.map (fun nodes => condition.value :: result.value :: nodes) (by omega)
termination_by (ts.length, 0)

end

/-- The expression that the lexemes are. -/
def read (ts : List Lexeme) : Option Node :=
  match tree 0 ts with
  | some ⟨node, [], _⟩ => some node
  | _ => none

/-! ## What the reader does -/

section Steps

variable {ts rest : List Lexeme} {level : Nat} {node left : Node}

/-- What is read, without the proof that it was something. -/
def treeOf (level : Nat) (ts : List Lexeme) : Option (Node × List Lexeme) :=
  (tree level ts).map Reading.pair

def moreOf (level : Nat) (left : Node) (ts : List Lexeme) : Option (Node × List Lexeme) :=
  (more level left ts).map Reading.pair

def itemsOf (ts : List Lexeme) : Option (List Node × List Lexeme) := (items ts).map Reading.pair

def branchesOf (ts : List Lexeme) : Option (List Node × List Lexeme) :=
  (branches ts).map Reading.pair

theorem expect_cons (t : Lexeme) (rest : List Lexeme) :
    expect t (t :: rest) = some ⟨(), rest, Nat.lt_succ_self _⟩ := by
  simp [expect]

theorem expect_of_ne {t first : Lexeme} (other : first ≠ t) (rest : List Lexeme) :
    expect t (first :: rest) = none := by
  simp [expect, other]

theorem exists_reading {α : Type} {n : Nat} {read : Option (Reading α n)} {value : α}
    (found : read.map Reading.pair = some (value, rest)) :
    ∃ shorter, read = some ⟨value, rest, shorter⟩ := by
  rcases Option.map_eq_some_iff.mp found with ⟨⟨own, left, shorter⟩, rfl, same⟩
  cases same
  exact ⟨shorter, rfl⟩

/-- At the levels of connectives, an operand of the level above comes first. -/
theorem treeOf_operand (below : level < 7) (other : level ≠ 3) (ts : List Lexeme) :
    treeOf level ts = (treeOf (level + 1) ts).bind fun r => moreOf level r.1 r.2 := by
  unfold treeOf
  rw [tree, if_neg (Nat.not_le.mpr below), if_neg other]
  refine Reading.map_pair_bind fun r => ?_
  unfold moreOf
  cases more level r.value r.rest <;> rfl

theorem treeOf_not (rest : List Lexeme) :
    treeOf 3 (.word "NOT" :: rest) =
      (treeOf 3 rest).map fun r => (.scalarCall .not [r.1], r.2) := by
  unfold treeOf
  rw [tree, if_neg (by decide), if_pos rfl, expect_cons]
  dsimp only
  cases tree 3 rest <;> rfl

theorem treeOf_three {t : Lexeme} (other : t ≠ .word "NOT") (rest : List Lexeme) :
    treeOf 3 (t :: rest) = treeOf 4 (t :: rest) := by
  unfold treeOf
  rw [tree, if_neg (by decide), if_pos rfl, expect_of_ne other]

theorem treeOf_seven (ts : List Lexeme) : treeOf 7 ts = (factor ts).map Reading.pair := by
  unfold treeOf
  rw [tree, if_pos (Nat.le_refl _)]

theorem moreOf_nil (level : Nat) (left : Node) : moreOf level left [] = some (left, []) := by
  unfold moreOf
  rw [more]
  rfl

theorem moreOf_connective {t : Lexeme} {c : Connective} (between : connective? level t = some c)
    (left : Node) (rest : List Lexeme) :
    moreOf level left (t :: rest) =
      (treeOf (level + 1) rest).bind fun r =>
        moreOf level (.scalarCall c.op [left, r.1]) r.2 := by
  unfold moreOf treeOf
  rw [more, between]
  dsimp only
  cases tree (level + 1) rest with
  | none => rfl
  | some right =>
    simp only [Option.map_some, Option.bind_some, Option.bind_eq_bind, Reading.pair]
    cases more level (.scalarCall c.op [left, right.value]) right.rest <;> rfl

theorem moreOf_nullTest {t : Lexeme} {op : ScalarOp} {after : List Lexeme}
    (apart : connective? level t = none)
    (found : (nullTest? level (t :: rest)).map Reading.pair = some (op, after)) (left : Node) :
    moreOf level left (t :: rest) = moreOf level (.scalarCall op [left]) after := by
  rcases exists_reading found with ⟨_, test⟩
  unfold moreOf
  rw [more, apart, test]
  dsimp only
  cases more level (.scalarCall op [left]) after <;> rfl

theorem moreOf_stop {t : Lexeme} (apart : connective? level t = none)
    (untested : nullTest? level (t :: rest) = none) (left : Node) :
    moreOf level left (t :: rest) = some (left, t :: rest) := by
  unfold moreOf
  rw [more, apart, untested]
  rfl

theorem treeOf_minus (rest : List Lexeme) :
    treeOf 7 (.word "-" :: rest) =
      (treeOf 7 rest).map fun r => (.scalarCall .negate [r.1], r.2) := by
  rw [treeOf_seven, treeOf_seven, factor, if_pos rfl]
  cases factor rest <;> rfl

theorem treeOf_bracketed (inner : treeOf 0 ts = some (node, .word ")" :: rest)) :
    treeOf 7 (.word "(" :: ts) = some (node, rest) := by
  rcases exists_reading inner with ⟨_, read⟩
  rw [treeOf_seven, factor]
  simp only [String.reduceEq, if_false, if_true, read, Option.bind_eq_bind, Option.bind_some,
    expect_cons]
  rfl

theorem treeOf_function {nodes : List Node} {name : String}
    (closed : expect (.word ")") ts = none)
    (operands : itemsOf ts = some (nodes, rest)) :
    treeOf 7 (.verbatim name :: .word "(" :: ts) =
      some (.scalarCall (.function name) nodes, rest) := by
  rcases exists_reading operands with ⟨_, read⟩
  rw [treeOf_seven, factor]
  simp only [Option.bind_eq_bind, Option.bind_some, expect_cons, closed, read]
  rfl

theorem treeOf_constant (name : String) (rest : List Lexeme) :
    treeOf 7 (.verbatim name :: .word "(" :: .word ")" :: rest) =
      some (.scalarCall (.function name) [], rest) := by
  rw [treeOf_seven, factor]
  simp only [Option.bind_eq_bind, Option.bind_some, expect_cons]
  rfl

theorem treeOf_cast {type : String}
    (operand : treeOf 0 ts = some (node, .word "AS" :: .verbatim type :: .word ")" :: rest)) :
    treeOf 7 (.word "CAST" :: .word "(" :: ts) =
      some (.scalarCall (.cast type) [node], rest) := by
  rcases exists_reading operand with ⟨_, read⟩
  rw [treeOf_seven, factor]
  simp only [String.reduceEq, if_false, if_true, read, Option.bind_eq_bind, Option.bind_some,
    expect_cons, verbatim?]
  rfl

theorem treeOf_caseWhen {nodes : List Node} (inner : branchesOf ts = some (nodes, rest)) :
    treeOf 7 (.word "CASE" :: ts) = some (.scalarCall .caseWhen nodes, rest) := by
  rcases exists_reading inner with ⟨_, read⟩
  rw [treeOf_seven, factor]
  simp only [String.reduceEq, if_false, if_true, read, Option.bind_eq_bind, Option.bind_some]
  rfl

theorem itemsOf_last (item : treeOf 0 ts = some (node, .word ")" :: rest)) :
    itemsOf ts = some ([node], rest) := by
  rcases exists_reading item with ⟨_, read⟩
  unfold itemsOf
  rw [items, read]
  simp only [Option.bind_eq_bind, Option.bind_some, expect_cons,
    expect_of_ne (show Lexeme.word ")" ≠ .word "," by decide)]
  rfl

theorem itemsOf_cons {us : List Lexeme} {nodes : List Node}
    (item : treeOf 0 ts = some (node, .word "," :: us))
    (others : itemsOf us = some (nodes, rest)) :
    itemsOf ts = some (node :: nodes, rest) := by
  rcases exists_reading item with ⟨_, read⟩
  rcases exists_reading others with ⟨_, readOthers⟩
  unfold itemsOf
  rw [items, read]
  simp only [Option.bind_eq_bind, Option.bind_some, expect_cons, readOthers]
  rfl

theorem branchesOf_end (rest : List Lexeme) :
    branchesOf (.word "END" :: rest) = some ([], rest) := by
  unfold branchesOf
  rw [branches, expect_cons]
  rfl

theorem branchesOf_default (result : treeOf 0 ts = some (node, .word "END" :: rest)) :
    branchesOf (.word "ELSE" :: ts) = some ([node], rest) := by
  rcases exists_reading result with ⟨_, read⟩
  unfold branchesOf
  rw [branches, expect_of_ne (by decide), expect_cons]
  simp only [Option.bind_eq_bind, Option.bind_some, expect_cons, read]
  rfl

theorem branchesOf_branch {condition : Node} {us vs : List Lexeme} {nodes : List Node}
    (first : treeOf 0 ts = some (condition, .word "THEN" :: us))
    (second : treeOf 0 us = some (node, vs)) (others : branchesOf vs = some (nodes, rest)) :
    branchesOf (.word "WHEN" :: ts) = some (condition :: node :: nodes, rest) := by
  rcases exists_reading first with ⟨_, readFirst⟩
  rcases exists_reading second with ⟨_, readSecond⟩
  rcases exists_reading others with ⟨_, readOthers⟩
  unfold branchesOf
  rw [branches, expect_of_ne (by decide), expect_of_ne (by decide), expect_cons]
  simp only [Option.bind_eq_bind, Option.bind_some, expect_cons, readFirst,
    readSecond, readOthers]
  rfl

end Steps

/-! ## Where an expression ends -/

section Stops

variable {ts rest : List Lexeme} {level m : Nat} {c : Connective} {text : String}

theorem connective?_level : ∀ c ∈ connectives, connective? c.level (.word c.symbol) = some c := by
  decide

/-- A connective is told by its symbol. -/
theorem symbol_injOn : ∀ c ∈ connectives, ∀ d ∈ connectives, c.symbol = d.symbol → c = d := by
  decide

theorem connective?_eq_none
    (apart : ∀ c ∈ connectives, ¬ (c.symbol = text ∧ c.level = level)) :
    connective? level (.word text) = none := by
  rw [connective?, List.find?_eq_none]
  intro c known
  rw [Bool.and_eq_true, decide_eq_true_eq, decide_eq_true_eq]
  exact apart c known

theorem nullTest?_of_ne {t : Lexeme} (other : t ≠ .word "IS") :
    nullTest? level (t :: rest) = none := by
  unfold nullTest?
  rw [expect_of_ne other]
  split <;> rfl

/-- No operator of the level, or of one above, is at the front. -/
def Stops (level : Nat) (ts : List Lexeme) : Prop :=
  ∀ m, level ≤ m → ∀ left, moreOf m left ts = some (left, ts)

theorem Stops.mono (stops : Stops level ts) (le : level ≤ m) : Stops m ts :=
  fun above high => stops above (Nat.le_trans le high)

theorem stops_nil : Stops level [] := fun m _ left => moreOf_nil m left

theorem stops_word (silent : ∀ c ∈ connectives, c.symbol ≠ text) (other : text ≠ "IS") :
    Stops 0 (.word text :: rest) := by
  intro m _ left
  refine moreOf_stop (connective?_eq_none fun c known both => silent c known both.1) ?_ left
  exact nullTest?_of_ne (by simpa using other)

theorem symbol_ne_is : ∀ c ∈ connectives, c.symbol ≠ "IS" := by
  decide

theorem stops_symbol (known : c ∈ connectives) :
    Stops (c.level + 1) (.word c.symbol :: rest) := by
  intro m above left
  refine moreOf_stop (connective?_eq_none fun found member both => ?_) (nullTest?_of_ne ?_) left
  · have same := symbol_injOn found member c known both.1
    have level : c.level = m := same ▸ both.2
    omega
  · simpa using symbol_ne_is c known

theorem stops_is : Stops 5 (.word "IS" :: rest) := by
  intro m above left
  refine moreOf_stop (connective?_eq_none fun c known both => symbol_ne_is c known both.1) ?_ left
  rw [nullTest?, if_neg (by omega)]

/-- Nothing follows at a level that has no operators. -/
theorem moreOf_idle (idle : ∀ c ∈ connectives, c.level ≠ level) (other : level ≠ 4)
    (left : Node) (ts : List Lexeme) : moreOf level left ts = some (left, ts) := by
  cases ts with
  | nil => exact moreOf_nil level left
  | cons t rest =>
    refine moreOf_stop ?_ (by rw [nullTest?, if_neg other]) left
    cases t with
    | word text => exact connective?_eq_none fun c known both => idle c known both.2
    | _ => rfl

/-- There are no operators at the highest level. -/
theorem stops_seven : Stops 7 ts := by
  have low : ∀ c ∈ connectives, c.level < 7 := by decide
  intro m above left
  refine moreOf_idle (fun c known => ?_) (by omega) left ts
  have := low c known
  omega

end Stops

/-! ## Every derivation is read -/

section Stands

variable {ts us rest : List Lexeme} {level : Nat} {node : Node}

/-- The lexemes do not open with what an expression of the level cannot open with. -/
def Opens (level : Nat) : List Lexeme → Prop
  | [] => False
  | t :: _ => t ≠ .word ")" ∧ (4 ≤ level → t ≠ .word "NOT")

theorem Opens.append (opens : Opens level ts) (us : List Lexeme) : Opens level (ts ++ us) := by
  cases ts with
  | nil => exact opens.elim
  | cons t rest => exact opens

theorem Opens.lower {m : Nat} (opens : Opens m ts) (le : level ≤ m) : Opens level ts := by
  cases ts with
  | nil => exact opens
  | cons t rest => exact ⟨opens.1, fun high => opens.2 (Nat.le_trans high le)⟩

theorem Opens.expect_bracket (opens : Opens level ts) : expect (.word ")") ts = none := by
  cases ts with
  | nil => rfl
  | cons t rest => exact expect_of_ne opens.1 rest

/-- The lexemes are read as the expression, after which the reader goes on at the level. -/
structure StandsAt (level : Nat) (node : Node) (ts : List Lexeme) : Prop where
  opens : Opens level ts
  read : ∀ rest, Stops (level + 1) rest → treeOf level (ts ++ rest) = moreOf level node rest

/-- The lexemes are read as the phrase in front of whatever may follow it. -/
def Stands : Phrase → List Lexeme → Prop
  | .tree level node, ts => StandsAt level node ts
  | .list nodes, ts => Opens 0 ts ∧ ∀ rest, itemsOf (ts ++ .word ")" :: rest) = some (nodes, rest)
  | .branches nodes, ts => ∀ rest, Stops 0 (ts ++ .word "END" :: rest) ∧
      branchesOf (ts ++ .word "END" :: rest) = some (nodes, rest)

/-- An expression in front of what cannot go on. -/
theorem StandsAt.whole (stands : StandsAt level node ts) (stops : Stops level rest) :
    treeOf level (ts ++ rest) = some (node, rest) :=
  (stands.read rest (stops.mono (Nat.le_succ _))).trans (stops level (Nat.le_refl _) node)

/-- An expression of the highest level is read without regard to what follows. -/
theorem standsAt_seven (opens : Opens 7 ts)
    (read : ∀ rest, treeOf 7 (ts ++ rest) = some (node, rest)) : StandsAt 7 node ts :=
  ⟨opens, fun rest _ => (read rest).trans (stops_seven 7 (Nat.le_refl _) node).symm⟩

theorem StandsAt.tighter (below : level < 7) (stands : StandsAt (level + 1) node ts) :
    StandsAt level node ts := by
  refine ⟨stands.opens.lower (Nat.le_succ _), fun rest stops => ?_⟩
  -- The reader looks for `NOT` at the third level only, and no tighter expression opens with it.
  by_cases three : level = 3
  · subst three
    cases ts with
    | nil => exact stands.opens.elim
    | cons t us =>
      rw [List.cons_append, treeOf_three (stands.opens.2 (Nat.le_refl _)), ← List.cons_append,
        stands.whole stops, moreOf_idle (by decide) (by decide)]
  · rw [treeOf_operand below three, stands.whole stops]
    rfl

theorem StandsAt.connected {c : Connective} {left right : Node} (known : c ∈ connectives)
    (first : StandsAt c.level left ts) (second : StandsAt (c.level + 1) right us) :
    StandsAt c.level (.scalarCall c.op [left, right]) (ts ++ .word c.symbol :: us) := by
  refine ⟨first.opens.append _, fun rest stops => ?_⟩
  rw [List.append_assoc, List.cons_append, first.read _ (stops_symbol known),
    moreOf_connective (connective?_level c known), second.whole stops]
  rfl

theorem StandsAt.not (operand : StandsAt 3 node ts) :
    StandsAt 3 (.scalarCall .not [node]) (.word "NOT" :: ts) := by
  refine ⟨⟨by decide, fun high => absurd high (by decide)⟩, fun rest stops => ?_⟩
  rw [List.cons_append, treeOf_not, operand.read rest stops, moreOf_idle (by decide) (by decide),
    moreOf_idle (by decide) (by decide)]
  rfl

theorem StandsAt.isNull (operand : StandsAt 4 node ts) :
    StandsAt 4 (.scalarCall .isNull [node]) (ts ++ [.word "IS", .word "NULL"]) := by
  refine ⟨operand.opens.append _, fun rest stops => ?_⟩
  rw [List.append_assoc]
  exact (operand.read _ stops_is).trans (moreOf_nullTest rfl rfl node)

theorem StandsAt.isNotNull (operand : StandsAt 4 node ts) :
    StandsAt 4 (.scalarCall .isNotNull [node])
      (ts ++ [.word "IS", .word "NOT", .word "NULL"]) := by
  refine ⟨operand.opens.append _, fun rest stops => ?_⟩
  rw [List.append_assoc]
  exact (operand.read _ stops_is).trans (moreOf_nullTest rfl rfl node)

end Stands

/-- What the grammar derives is read back. -/
theorem stands_of_derives {phrase : Phrase} {ts : List Lexeme} (derives : Derives phrase ts) :
    Stands phrase ts := by
  induction derives with
  | identifier parts =>
    refine standsAt_seven ⟨nofun, fun _ => nofun⟩ fun rest => ?_
    rw [List.singleton_append, treeOf_seven, factor]
    rfl
  | numeral text =>
    refine standsAt_seven ⟨nofun, fun _ => nofun⟩ fun rest => ?_
    rw [List.singleton_append, treeOf_seven, factor]
    rfl
  | string content =>
    refine standsAt_seven ⟨nofun, fun _ => nofun⟩ fun rest => ?_
    rw [List.singleton_append, treeOf_seven, factor]
    rfl
  | null =>
    refine standsAt_seven ⟨by decide, fun _ => by decide⟩ fun rest => ?_
    rw [List.singleton_append, treeOf_seven, factor]
    rfl
  | boolean value =>
    refine standsAt_seven (by cases value <;> exact ⟨by decide, fun _ => by decide⟩) ?_
    intro rest
    rw [List.singleton_append, treeOf_seven]
    cases value <;> (rw [factor]; rfl)
  | bracketed _ inner =>
    refine standsAt_seven ⟨by decide, fun _ => by decide⟩ fun rest => ?_
    rw [List.cons_append, List.append_assoc]
    exact treeOf_bracketed (inner.whole (stops_word (by decide) (by decide)))
  | minus _ operand =>
    refine standsAt_seven ⟨by decide, fun _ => by decide⟩ fun rest => ?_
    rw [List.cons_append, treeOf_minus, operand.whole stops_seven]
    rfl
  | constant name =>
    exact standsAt_seven ⟨nofun, fun _ => nofun⟩ fun rest => treeOf_constant name rest
  | function name _ operands =>
    refine standsAt_seven ⟨nofun, fun _ => nofun⟩ fun rest => ?_
    rw [List.cons_append, List.cons_append, List.append_assoc]
    exact treeOf_function (operands.1.append _).expect_bracket (operands.2 rest)
  | cast type _ operand =>
    refine standsAt_seven ⟨by decide, fun _ => by decide⟩ fun rest => ?_
    rw [List.cons_append, List.cons_append, List.append_assoc]
    exact treeOf_cast (operand.whole (stops_word (by decide) (by decide)))
  | caseWhen _ inner =>
    refine standsAt_seven ⟨by decide, fun _ => by decide⟩ fun rest => ?_
    rw [List.cons_append, List.append_assoc]
    exact treeOf_caseWhen (inner rest).2
  | connected known _ _ first second => exact first.connected known second
  | not _ operand => exact operand.not
  | isNull _ operand => exact operand.isNull
  | isNotNull _ operand => exact operand.isNotNull
  | tighter below _ own => exact own.tighter below
  | only _ item =>
    exact ⟨item.opens, fun rest => itemsOf_last (item.whole (stops_word (by decide) (by decide)))⟩
  | more _ _ item others =>
    refine ⟨item.opens.append _, fun rest => ?_⟩
    rw [List.append_assoc]
    exact itemsOf_cons (item.whole (stops_word (by decide) (by decide))) (others.2 rest)
  | noBranch => exact fun rest => ⟨stops_word (by decide) (by decide), branchesOf_end rest⟩
  | default _ result =>
    intro rest
    refine ⟨stops_word (by decide) (by decide), ?_⟩
    exact branchesOf_default (result.whole (stops_word (by decide) (by decide)))
  | branch _ _ _ first second others =>
    intro rest
    refine ⟨stops_word (by decide) (by decide), ?_⟩
    rw [List.cons_append, List.append_assoc, List.cons_append, List.append_assoc]
    exact branchesOf_branch (first.whole (stops_word (by decide) (by decide)))
      (second.whole (others rest).1) (others rest).2

/-- The reader gives the expression of any derivation. -/
theorem read_of_derives {node : Node} {ts : List Lexeme} (derives : Derives (.tree 0 node) ts) :
    read ts = some node := by
  have stands : StandsAt 0 node ts := stands_of_derives derives
  have whole : treeOf 0 (ts ++ []) = some (node, []) := stands.whole stops_nil
  rw [List.append_nil] at whole
  rcases exists_reading whole with ⟨_, done⟩
  rw [read, done]

/-- No lexemes are a way to write two expressions. -/
theorem derives_unique {node other : Node} {ts : List Lexeme}
    (derives : Derives (.tree 0 node) ts)
    (also : Derives (.tree 0 other) ts) : other = node := by
  have same := (read_of_derives also).symm.trans (read_of_derives derives)
  exact Option.some.inj same

end Pushdown.Sql.Reader
