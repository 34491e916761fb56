import Mathlib.Data.List.Forall2
import Pushdown.Proofs.Sql.Reader
import Pushdown.Proofs.Sql.Tree

/-!
# Expressions are read as they were written

The brackets that the printer sets are those that the grammar needs: the lexemes of an expression
in any place are a way to write its plain form, and of no other expression (`Node.read_script`).

The plain form of an expression has conjunctions and disjunctions of two operands only, nested to
the left, and numerals without a sign, kept as their text.
-/

namespace Pushdown

/-- Whether the operator takes that many operands. -/
def ScalarOp.takes (op : ScalarOp) (count : Nat) : Bool :=
  match op with
  | .and | .or | .caseWhen | .function _ => true
  | .not | .negate | .isNull | .isNotNull | .cast _ => count == 1
  | _ => count == 2

namespace Sql

/-! ## Plain forms -/

mutual

/-- Whether the node is a scalar expression in which every operator has its operands. -/
def Node.wellFormed : Node → Bool
  | .identifier _ | .literal _ => true
  | .call (.scalar op) operands => op.takes operands.length && Node.allWellFormed operands
  | _ => false

def Node.allWellFormed : List Node → Bool
  | [] => true
  | node :: rest => node.wellFormed && Node.allWellFormed rest

end

/-- A number without its sign, negated if it had one. -/
def numeral (negative : Bool) (unsigned : String) : Node :=
  if negative then .scalarCall .negate [.literal (.decimal unsigned)]
  else .literal (.decimal unsigned)

/-- A number is read as a decimal, and its sign as a negation. -/
def plainLiteral : Literal → Node
  | .integer n => numeral (n.toInt < 0) (toString n.toInt.natAbs)
  | .decimal text =>
    if text.toList.head? = some '-' then numeral true (String.ofList text.toList.tail)
    else numeral false text
  | .double x => numeral x.hasMinus x.unsignedText
  | value => .literal value

/-- Operands of an associative operator, two at a time from the left, or its unit for none. -/
def leftDeep (op : ScalarOp) (unit : Bool) : List Node → Node
  | [] => .literal (.boolean unit)
  | first :: rest => rest.foldl (fun left right => .scalarCall op [left, right]) first

/-- A conjunction or disjunction of many is read as one of two, time and again. -/
def plainCall (op : ScalarOp) (operands : List Node) : Node :=
  match op with
  | .and => leftDeep .and true operands
  | .or => leftDeep .or false operands
  | op => .scalarCall op operands

mutual

/-- The plain form of an expression. -/
def Node.plain : Node → Node
  | .literal value => plainLiteral value
  | .call (.scalar op) operands => plainCall op (Node.plainAll operands)
  | node => node

def Node.plainAll : List Node → List Node
  | [] => []
  | node :: rest => node.plain :: Node.plainAll rest

end

@[simp] theorem Node.allWellFormed_eq_all (nodes : List Node) :
    Node.allWellFormed nodes = nodes.all Node.wellFormed := by
  induction nodes with
  | nil => simp [allWellFormed]
  | cons node rest ih => simp [allWellFormed, ih]

@[simp] theorem Node.plainAll_eq_map (nodes : List Node) :
    Node.plainAll nodes = nodes.map Node.plain := by
  induction nodes with
  | nil => simp [plainAll]
  | cons node rest ih => simp [plainAll, ih]

/-! ## Scripts and what they spell -/

/-- The lexemes of the script, blanks left out. -/
def Script.tokens (s : Script) : List Lexeme := s.lexemes.filter (· ≠ .blank)

/-- The script lacks nothing, and its lexemes are these, blanks left out. -/
structure Script.Writes (s : Script) (ts : List Lexeme) : Prop where
  complete : s.complete = true
  tokens : s.tokens = ts

/-- The script is a way to write the phrase. -/
def Script.Spells (s : Script) (phrase : Phrase) : Prop := ∃ ts, s.Writes ts ∧ Derives phrase ts

section Scripts

variable {s next : Script} {ts us : List Lexeme} {node : Node}

theorem Script.Writes.append (first : s.Writes ts) (second : next.Writes us) :
    (s ++ next).Writes (ts ++ us) := by
  have joined : s ++ next = ⟨s.lexemes ++ next.lexemes, next.complete⟩ := by
    change Script.append s next = _
    rw [Script.append, if_pos first.complete]
  rw [joined]
  refine ⟨second.complete, ?_⟩
  rw [Script.tokens, List.filter_append]
  exact congr (congrArg _ first.tokens) second.tokens

theorem Script.writes_empty : Script.empty.Writes [] := ⟨rfl, rfl⟩

theorem Script.writes_blank : Script.blank.Writes [] := ⟨rfl, rfl⟩

theorem Script.writes_word (text : String) : (Script.word text).Writes [.word text] := ⟨rfl, rfl⟩

theorem Script.writes_comma : Script.comma.Writes [.word ","] := ⟨rfl, rfl⟩

theorem Script.writes_spaced (text : String) :
    (Script.spaced [text]).Writes [.word text] := ⟨rfl, rfl⟩

theorem Script.writes_verbatim (text : String) :
    (Script.ofList [.verbatim text]).Writes [.verbatim text] := ⟨rfl, rfl⟩

theorem Script.Writes.bracketed (writes : s.Writes ts) :
    s.bracketed.Writes (.word "(" :: (ts ++ [.word ")"])) :=
  ((writes_word "(").append writes).append (writes_word ")")

/-- An expression of a level is one of every level below. -/
theorem Derives.lower {m n : Nat} (derives : Derives (.tree m node) ts) (le : n ≤ m)
    (low : m ≤ 7) :
    Derives (.tree n node) ts := by
  induction m with
  | zero => exact Nat.le_zero.mp le ▸ derives
  | succ m ih =>
    rcases Nat.le_succ_iff.mp le with below | rfl
    · exact ih (.tighter (by omega) derives) below (by omega)
    · exact derives

theorem Script.Spells.lower {m n : Nat} (spells : s.Spells (.tree m node)) (le : n ≤ m)
    (low : m ≤ 7) : s.Spells (.tree n node) := by
  rcases spells with ⟨ts, writes, derives⟩
  exact ⟨ts, writes, derives.lower le low⟩

theorem Script.Spells.bracketed (spells : s.Spells (.tree 0 node)) :
    s.bracketed.Spells (.tree 7 node) := by
  rcases spells with ⟨ts, writes, derives⟩
  exact ⟨_, writes.bracketed, .bracketed derives⟩

/-- A call in its place: brackets stand around one that binds looser than the place allows. -/
theorem Script.Spells.placed {precedence least : Nat}
    (spells : s.Spells (.tree (min precedence 7) node)) :
    (if precedence < least then s.bracketed else s).Spells (.tree (min least 7) node) := by
  split
  · exact (spells.lower (Nat.zero_le _) (Nat.min_le_right _ _)).bracketed.lower
      (Nat.min_le_right _ _) (Nat.le_refl _)
  · exact spells.lower (by omega) (Nat.min_le_right _ _)

end Scripts

/-! ## Layouts -/

/-- The operand spells the expression wherever it stands. -/
def Operand.Shows (operand : Operand) (node : Node) : Prop :=
  ∀ least, (operand.write least).Spells (.tree (min least 7) node)

section Layouts

variable {operand : Operand} {node left : Node} {operands : List Operand} {nodes : List Node}
  {op : ScalarOp} {symbol : String}

theorem Operand.Shows.spells (shown : operand.Shows node) {least : Nat} (low : least ≤ 7) :
    (operand.write least).Spells (.tree least node) := by
  have own := shown least
  rwa [Nat.min_eq_left low] at own

theorem spells_listed (shown : List.Forall₂ Operand.Shows operands nodes) (some : nodes ≠ []) :
    (listed operands).Spells (.list nodes) := by
  induction shown with
  | nil => exact absurd rfl some
  | cons head tail ih =>
    rcases head.spells (Nat.zero_le _) with ⟨ts, writes, derives⟩
    cases tail with
    | nil => exact ⟨ts, writes, .only derives⟩
    | cons second others =>
      rcases ih (List.cons_ne_nil _ _) with ⟨us, writesOthers, derivesOthers⟩
      refine ⟨_, (writes.append Script.writes_comma).append writesOthers, ?_⟩
      rw [List.append_assoc]
      exact .more derives derivesOthers

theorem Script.append_assoc (a b c : Script) : a ++ b ++ c = a ++ (b ++ c) := by
  change append (append a b) c = append a (append b c)
  unfold append
  by_cases first : a.complete <;> by_cases second : b.complete <;> simp [first, second]

/-- The first two of the scripts may be put together beforehand. -/
theorem separated_cons_cons (separator first second : Script) (rest : List Script) :
    separated separator (first :: second :: rest) =
      separated separator ((first ++ separator ++ second) :: rest) := by
  cases rest with
  | nil => rfl
  | cons third rest =>
    change first ++ separator ++ (second ++ separator ++ _) =
      first ++ separator ++ second ++ _ ++ _
    simp only [Script.append_assoc]

/-- The grammar has every infix operator, at the level of its precedence. -/
theorem mem_connectives (between : op.infixSymbol? = some symbol) :
    ⟨symbol, op.precedence, op⟩ ∈ connectives := by
  cases op with
  | not | negate | isNull | isNotNull | caseWhen | cast | function => cases between
  | _ =>
    cases between
    decide

theorem Script.Spells.connected {s next : Script} {right : Node}
    (between : op.infixSymbol? = some symbol) (first : s.Spells (.tree op.precedence left))
    (second : next.Spells (.tree (op.precedence + 1) right)) :
    (s ++ .spaced [symbol] ++ next).Spells
      (.tree op.precedence (.scalarCall op [left, right])) := by
  rcases first with ⟨ts, writes, derives⟩
  rcases second with ⟨us, writesNext, derivesNext⟩
  refine ⟨_, (writes.append (writes_spaced symbol)).append writesNext, ?_⟩
  rw [List.append_assoc]
  exact .connected (mem_connectives between) derives derivesNext

/-- A chain read from the left: what stands before an operator is its left operand. -/
theorem spells_separated (between : op.infixSymbol? = some symbol) (low : op.precedence < 7)
    (shown : List.Forall₂ Operand.Shows operands nodes) {s : Script}
    (first : s.Spells (.tree op.precedence left)) :
    (separated (.spaced [symbol]) (s :: operands.map (·.write (op.precedence + 1)))).Spells
      (.tree op.precedence
        (nodes.foldl (fun left right => .scalarCall op [left, right]) left)) := by
  induction shown generalizing s left with
  | nil => exact first
  | cons head _ ih =>
    rw [List.map_cons, separated_cons_cons, List.foldl_cons]
    exact ih (first.connected between (head.spells low))

theorem spells_chain (op : ScalarOp) (unit : Bool) (between : op.infixSymbol? = some symbol)
    (low : op.precedence < 7) (shown : List.Forall₂ Operand.Shows operands nodes) :
    (chain op symbol (if unit then "TRUE" else "FALSE") operands).Spells
      (.tree op.precedence (leftDeep op unit nodes)) := by
  cases shown with
  | nil =>
    refine ⟨_, Script.writes_word _, ?_⟩
    exact (Derives.boolean unit).lower (Nat.le_of_lt low) (Nat.le_refl _)
  | cons head tail => exact spells_separated between low tail (head.spells (Nat.le_of_lt low))

theorem spells_branches (shown : List.Forall₂ Operand.Shows operands nodes) :
    (branches operands).Spells (.branches nodes) := by
  fun_induction branches operands generalizing nodes with
  | case1 condition result rest ih =>
    cases shown with
    | cons first tail =>
      cases tail with
      | cons second others =>
        rcases first.spells (Nat.zero_le _) with ⟨ts, writes, derives⟩
        rcases second.spells (Nat.zero_le _) with ⟨us, writesResult, derivesResult⟩
        rcases ih others with ⟨vs, writesRest, derivesRest⟩
        refine ⟨_, ((((Script.writes_spaced "WHEN").append writes).append
          (Script.writes_spaced "THEN")).append writesResult).append writesRest, ?_⟩
        simpa using Derives.branch derives derivesResult derivesRest
  | case2 default =>
    cases shown with
    | cons head tail =>
      cases tail
      rcases head.spells (Nat.zero_le _) with ⟨ts, writes, derives⟩
      exact ⟨_, (Script.writes_spaced "ELSE").append writes, .default derives⟩
  | case3 =>
    cases shown
    exact ⟨_, Script.writes_empty, .noBranch⟩

theorem spells_function (name : String) (shown : List.Forall₂ Operand.Shows operands nodes) :
    (scalarCallScript (.function name) operands).Spells
      (.tree 7 (.scalarCall (.function name) nodes)) := by
  by_cases none : nodes = []
  · subst none
    cases shown
    exact ⟨_, (Script.writes_verbatim name).append Script.writes_empty.bracketed, .constant name⟩
  · rcases spells_listed shown none with ⟨ts, writes, derives⟩
    exact ⟨_, (Script.writes_verbatim name).append writes.bracketed, .function name derives⟩

theorem spells_cast (type : String) (shown : operand.Shows node) :
    (scalarCallScript (.cast type) [operand]).Spells
      (.tree 7 (.scalarCall (.cast type) [node])) := by
  rcases shown.spells (Nat.zero_le _) with ⟨ts, writes, derives⟩
  refine ⟨_, (Script.writes_word "CAST").append ((writes.append
    (Script.writes_spaced "AS")).append (Script.writes_verbatim type)).bracketed, ?_⟩
  simpa using Derives.cast type derives

theorem spells_caseWhen (shown : List.Forall₂ Operand.Shows operands nodes) :
    (scalarCallScript .caseWhen operands).Spells (.tree 7 (.scalarCall .caseWhen nodes)) := by
  rcases spells_branches shown with ⟨ts, writes, derives⟩
  refine ⟨_, (((Script.writes_word "CASE").append writes).append Script.writes_blank).append
    (Script.writes_word "END"), ?_⟩
  simpa using Derives.caseWhen derives

/-- With brackets or without them, the operand of a minus sign is one of the highest level. -/
theorem spells_negation (shown : operand.Shows node) :
    (negation [operand]).Spells (.tree 7 (.scalarCall .negate [node])) := by
  have inner : (if operand.opensWithMinus then (operand.write 0).bracketed
      else operand.write 7).Spells (.tree 7 node) := by
    split
    · exact (shown.spells (Nat.zero_le _)).bracketed
    · exact shown.spells (Nat.le_refl _)
  rcases inner with ⟨ts, writes, derives⟩
  exact ⟨_, (Script.writes_word "-").append writes, .minus derives⟩

theorem spells_not (shown : operand.Shows node) :
    (scalarCallScript .not [operand]).Spells (.tree 3 (.scalarCall .not [node])) := by
  rcases shown.spells (show 3 ≤ 7 by decide) with ⟨ts, writes, derives⟩
  exact ⟨_, ((Script.writes_word "NOT").append Script.writes_blank).append writes, .not derives⟩

/-- The printer brackets an operand of the level of the test, which the grammar would take too. -/
theorem spells_nullTest {keywords : List String} {ts : List Lexeme}
    (writesTest : (Script.words keywords).Writes ts)
    (test : ∀ us, Derives (.tree 4 node) us →
      Derives (.tree 4 (.scalarCall op [node])) (us ++ ts))
    (four : op.precedence = 4) (shown : operand.Shows node) :
    (nullTest op keywords [operand]).Spells (.tree 4 (.scalarCall op [node])) := by
  rcases shown.spells (show op.precedence + 1 ≤ 7 by omega) with ⟨us, writes, derives⟩
  rw [four] at derives
  refine ⟨_, (writes.append Script.writes_blank).append writesTest, ?_⟩
  rw [List.append_nil]
  exact test us (.tighter (by decide) derives)

theorem spells_infixCall (between : op.infixSymbol? = some symbol) (low : op.precedence < 7)
    (shown : List.Forall₂ Operand.Shows operands nodes) (two : nodes.length = 2) :
    (infixCall op symbol operands).Spells (.tree op.precedence (.scalarCall op nodes)) := by
  rcases List.length_eq_two.mp two with ⟨left, right, rfl⟩
  cases shown with
  | cons first tail =>
    cases tail with
    | cons second none =>
      cases none
      exact (first.spells (Nat.le_of_lt low)).connected between (second.spells low)

/-- The only operand of an operator that takes one. -/
theorem exists_operand (shown : List.Forall₂ Operand.Shows operands nodes)
    (one : nodes.length = 1) :
    ∃ operand node, operands = [operand] ∧ nodes = [node] ∧ operand.Shows node := by
  rcases List.length_eq_one_iff.mp one with ⟨node, rfl⟩
  cases shown with
  | cons head none =>
    cases none
    exact ⟨_, node, rfl, rfl, head⟩

end Layouts

/-! ## Trees -/

theorem spells_signed (negative : Bool) (unsigned : String) :
    (Script.ofList (signed negative unsigned)).Spells (.tree 7 (numeral negative unsigned)) := by
  cases negative with
  | false => exact ⟨_, ⟨rfl, rfl⟩, .numeral unsigned⟩
  | true => exact ⟨_, ⟨rfl, rfl⟩, .minus (.numeral unsigned)⟩

theorem spells_literal (value : Literal) :
    (Script.ofList (literalLexemes value)).Spells (.tree 7 (plainLiteral value)) := by
  cases value with
  | null => exact ⟨_, ⟨rfl, rfl⟩, .null⟩
  | boolean value => cases value with
    | false => exact ⟨_, ⟨rfl, rfl⟩, .boolean false⟩
    | true => exact ⟨_, ⟨rfl, rfl⟩, .boolean true⟩
  | integer n => exact spells_signed _ _
  | decimal text =>
    rw [literalLexemes, plainLiteral]
    split
    case h_1 rest opens =>
      rw [opens, List.head?_cons, if_pos rfl]
      exact spells_signed true _
    case h_2 chars other =>
      rw [if_neg]
      · exact spells_signed false _
      · intro opens
        rcases List.head?_eq_some_iff.mp opens with ⟨rest, same⟩
        exact other rest same
  | double x => exact spells_signed _ _
  | string content => exact ⟨_, ⟨rfl, rfl⟩, .string content⟩

/-- A call without brackets around it is an expression of the level of its operator. -/
theorem spells_scalarCall {op : ScalarOp} {operands : List Operand} {nodes : List Node}
    (arity : op.takes nodes.length = true) (shown : List.Forall₂ Operand.Shows operands nodes) :
    (scalarCallScript op operands).Spells (.tree (min op.precedence 7) (plainCall op nodes)) := by
  cases op with
  | and => exact spells_chain .and true rfl (by decide) shown
  | or => exact spells_chain .or false rfl (by decide) shown
  | function name => exact spells_function name shown
  | caseWhen => exact spells_caseWhen shown
  | cast type =>
    rcases exists_operand shown (eq_of_beq arity) with ⟨operand, node, rfl, rfl, own⟩
    exact spells_cast type own
  | negate =>
    rcases exists_operand shown (eq_of_beq arity) with ⟨operand, node, rfl, rfl, own⟩
    exact spells_negation own
  | not =>
    rcases exists_operand shown (eq_of_beq arity) with ⟨operand, node, rfl, rfl, own⟩
    exact spells_not own
  | isNull =>
    rcases exists_operand shown (eq_of_beq arity) with ⟨operand, node, rfl, rfl, own⟩
    exact spells_nullTest ⟨rfl, rfl⟩ (fun _ => .isNull) rfl own
  | isNotNull =>
    rcases exists_operand shown (eq_of_beq arity) with ⟨operand, node, rfl, rfl, own⟩
    exact spells_nullTest ⟨rfl, rfl⟩ (fun _ => .isNotNull) rfl own
  | _ => exact spells_infixCall rfl (by decide) shown (eq_of_beq arity)

/-- An expression in a place is one of the level that the place asks for. -/
theorem Node.spells_script {node : Node} (formed : node.wellFormed = true) (place : Place) :
    (node.script place).Spells (.tree (min place.least 7) node.plain) := by
  induction node using Node.expression_induction generalizing place with
  | identifier parts =>
    rw [Node.script, Node.plain]
    · exact ⟨_, ⟨rfl, rfl⟩, (Derives.identifier parts).lower (Nat.min_le_right _ _)
        (Nat.le_refl _)⟩
    · exact nofun
    · exact nofun
  | literal value =>
    rw [Node.script, Node.plain]
    exact (spells_literal value).lower (Nat.min_le_right _ _) (Nat.le_refl _)
  | call operator operands ih =>
    cases operator with
    | aggregate => exact absurd formed (by simp [Node.wellFormed])
    | scalar op =>
      simp only [Node.wellFormed, Bool.and_eq_true, Node.allWellFormed_eq_all,
        List.all_eq_true] at formed
      rcases formed with ⟨arity, each⟩
      rw [Node.script, operandsOf_eq_map, Node.plain, Node.plainAll_eq_map]
      -- The operator decides where each operand stands, so they are needed in all places at once.
      refine Script.Spells.placed (spells_scalarCall ?_ ?_)
      · rw [List.length_map]
        exact arity
      · rw [List.forall₂_map_left_iff, List.forall₂_map_right_iff, List.forall₂_same]
        exact fun operand member least => ih operand member (each operand member) (.operand least)
  | named | select | setOp | join => exact absurd formed (by simp [Node.wellFormed])

/-- Whatever place an expression is written in, its lexemes are read as its plain form, and the
grammar allows no other reading. -/
theorem Node.read_script {node : Node} (formed : node.wellFormed = true) (place : Place) :
    (node.script place).complete = true ∧
      Reader.read (node.script place).tokens = some node.plain ∧
      ∀ other, Derives (.tree 0 other) (node.script place).tokens ↔ other = node.plain := by
  rcases (spells_script formed place).lower (Nat.zero_le _) (Nat.min_le_right _ _) with
    ⟨ts, ⟨complete, rfl⟩, derives⟩
  refine ⟨complete, Reader.read_of_derives derives, fun other => ?_⟩
  constructor
  · exact Reader.derives_unique derives
  · intro same
    rw [same]
    exact derives

/-- `NOT (a OR b) AND -(-1) * (2 - (3 - a)) IS NULL`, with a third operand of the conjunction that
is a `CASE`. -/
def tangle : Node :=
  let a : Node := .identifier ["a"]
  let b : Node := .identifier ["b"]
  .scalarCall .and
    [.scalarCall .not [.scalarCall .or [a, b]],
      .scalarCall .isNull [.scalarCall .times
        [.scalarCall .negate [.literal (.integer (-1))],
          .scalarCall .minus
            [.literal (.integer 2), .scalarCall .minus [.literal (.integer 3), a]]]],
      .scalarCall .caseWhen [.scalarCall .eq [.scalarCall .isNull [a], b], a, .scalarCall .or []]]

theorem Node.read_script_tangle :
    tangle.wellFormed = true ∧ (tangle.script .top).complete = true ∧
      Reader.read (tangle.script .top).tokens = some tangle.plain ∧
      ∀ other, Derives (.tree 0 other) (tangle.script .top).tokens ↔ other = tangle.plain :=
  ⟨by decide, Node.read_script (by decide) .top⟩

end Sql

end Pushdown
