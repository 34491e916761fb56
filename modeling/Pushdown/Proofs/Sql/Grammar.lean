import Pushdown.Sql.Printer

/-!
# The grammar of SQL expressions

Which lexemes, blanks left out, an expression may be written as.  Expressions come in levels, from
disjunctions at the first to what needs no brackets anywhere at the seventh.  An operator between
two operands has one of its own level to the left and one above it to the right, and brackets make
any expression one of the highest level.  Level zero holds them all.

Names, numerals, strings and types are single lexemes, so that the grammar is one of words and
signs alone.
-/

namespace Pushdown.Sql

/-- An operator between two operands, with the level of the expressions that it makes. -/
structure Connective where
  symbol : String
  level : Nat
  op : ScalarOp
  deriving DecidableEq

/-- All operators that stand between their operands. -/
def connectives : List Connective :=
  [⟨"OR", 1, .or⟩,
    ⟨"AND", 2, .and⟩,
    ⟨"=", 4, .eq⟩, ⟨"<>", 4, .notEq⟩, ⟨"<", 4, .lt⟩, ⟨"<=", 4, .ltEq⟩, ⟨">", 4, .gt⟩,
    ⟨">=", 4, .gtEq⟩, ⟨"LIKE", 4, .like⟩,
    ⟨"+", 5, .plus⟩, ⟨"-", 5, .minus⟩,
    ⟨"*", 6, .times⟩, ⟨"/", 6, .divide⟩]

/-- What can be written: an expression of a level, or a part of one that holds several. -/
inductive Phrase where
  | tree (level : Nat) (node : Node)
  /-- Expressions with commas between them. -/
  | list (nodes : List Node)
  /-- What stands between `CASE` and `END`. -/
  | branches (nodes : List Node)

/-- The lexemes are a way to write the phrase. -/
inductive Derives : Phrase → List Lexeme → Prop
  | identifier (parts : List String) : Derives (.tree 7 (.identifier parts)) [.identifier parts]
  | numeral (text : String) : Derives (.tree 7 (.literal (.decimal text))) [.numeral text]
  | string (content : String) : Derives (.tree 7 (.literal (.string content))) [.string content]
  | null : Derives (.tree 7 (.literal .null)) [.word "NULL"]
  | boolean (value : Bool) :
      Derives (.tree 7 (.literal (.boolean value))) [.word (if value then "TRUE" else "FALSE")]
  | bracketed {node : Node} {ts : List Lexeme} (inner : Derives (.tree 0 node) ts) :
      Derives (.tree 7 node) (.word "(" :: (ts ++ [.word ")"]))
  | minus {node : Node} {ts : List Lexeme} (operand : Derives (.tree 7 node) ts) :
      Derives (.tree 7 (.scalarCall .negate [node])) (.word "-" :: ts)
  | constant (name : String) :
      Derives (.tree 7 (.scalarCall (.function name) []))
        [.verbatim name, .word "(", .word ")"]
  | function (name : String) {nodes : List Node} {ts : List Lexeme}
      (operands : Derives (.list nodes) ts) :
      Derives (.tree 7 (.scalarCall (.function name) nodes))
        (.verbatim name :: .word "(" :: (ts ++ [.word ")"]))
  | cast (type : String) {node : Node} {ts : List Lexeme} (operand : Derives (.tree 0 node) ts) :
      Derives (.tree 7 (.scalarCall (.cast type) [node]))
        (.word "CAST" :: .word "(" :: (ts ++ [.word "AS", .verbatim type, .word ")"]))
  | caseWhen {nodes : List Node} {ts : List Lexeme} (inner : Derives (.branches nodes) ts) :
      Derives (.tree 7 (.scalarCall .caseWhen nodes)) (.word "CASE" :: (ts ++ [.word "END"]))
  | connected {c : Connective} {left right : Node} {ts us : List Lexeme} (known : c ∈ connectives)
      (first : Derives (.tree c.level left) ts)
      (second : Derives (.tree (c.level + 1) right) us) :
      Derives (.tree c.level (.scalarCall c.op [left, right])) (ts ++ .word c.symbol :: us)
  | not {node : Node} {ts : List Lexeme} (operand : Derives (.tree 3 node) ts) :
      Derives (.tree 3 (.scalarCall .not [node])) (.word "NOT" :: ts)
  | isNull {node : Node} {ts : List Lexeme} (operand : Derives (.tree 4 node) ts) :
      Derives (.tree 4 (.scalarCall .isNull [node])) (ts ++ [.word "IS", .word "NULL"])
  | isNotNull {node : Node} {ts : List Lexeme} (operand : Derives (.tree 4 node) ts) :
      Derives (.tree 4 (.scalarCall .isNotNull [node]))
        (ts ++ [.word "IS", .word "NOT", .word "NULL"])
  /-- An expression of a level is one of the level below. -/
  | tighter {level : Nat} {node : Node} {ts : List Lexeme} (below : level < 7)
      (own : Derives (.tree (level + 1) node) ts) : Derives (.tree level node) ts
  | only {node : Node} {ts : List Lexeme} (item : Derives (.tree 0 node) ts) :
      Derives (.list [node]) ts
  | more {node : Node} {nodes : List Node} {ts us : List Lexeme}
      (item : Derives (.tree 0 node) ts) (others : Derives (.list nodes) us) :
      Derives (.list (node :: nodes)) (ts ++ .word "," :: us)
  | noBranch : Derives (.branches []) []
  | default {node : Node} {ts : List Lexeme} (result : Derives (.tree 0 node) ts) :
      Derives (.branches [node]) (.word "ELSE" :: ts)
  | branch {condition result : Node} {nodes : List Node} {ts us vs : List Lexeme}
      (first : Derives (.tree 0 condition) ts) (second : Derives (.tree 0 result) us)
      (others : Derives (.branches nodes) vs) :
      Derives (.branches (condition :: result :: nodes))
        (.word "WHEN" :: (ts ++ .word "THEN" :: (us ++ vs)))

end Pushdown.Sql
