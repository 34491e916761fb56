import Pushdown.Proofs.Sql.RoundTrip
import Pushdown.Proofs.Sql.Tree

/-!
# `ORDER BY` and what follows it

The printer writes `ORDER BY` wherever a query has the clause, and then the keys of the clause, if
it has any.  Without a key the words are followed by whatever comes next: the end of the
statement, a closing bracket, or the operator of a set operation.  Where every clause has a key,
none of the words stands so (`Node.keyed_script`), whatever the rest of the tree is like.

A script that was cut short for want of an operand is no statement, and nothing is said about it.
-/

namespace Pushdown.Sql

/-- Whether the lexeme ends the query in front of it. -/
def Lexeme.endsQuery (t : Lexeme) : Bool :=
  [.word ")", .word "UNION", .word "INTERSECT", .word "EXCEPT"].contains t

/-- Somewhere `ORDER BY` is followed by nothing, or by what ends the query. -/
def OrderDangles (ts : List Lexeme) : Prop :=
  ∃ before after, ts = before ++ .word "ORDER" :: .word "BY" :: after ∧
    ∀ next ∈ after.head?, next.endsQuery = true

/-- Every `ORDER` begins an `ORDER BY` with the first lexeme of a key behind it. -/
inductive OrdersKeyed : List Lexeme → Prop
  | nil : OrdersKeyed []
  | other {t : Lexeme} {ts : List Lexeme} (differs : t ≠ .word "ORDER") (rest : OrdersKeyed ts) :
      OrdersKeyed (t :: ts)
  | order {key : Lexeme} {ts : List Lexeme} (opens : key.endsQuery = false)
      (rest : OrdersKeyed (key :: ts)) : OrdersKeyed (.word "ORDER" :: .word "BY" :: key :: ts)

namespace OrdersKeyed

variable {ts us : List Lexeme}

theorem append (first : OrdersKeyed ts) (second : OrdersKeyed us) : OrdersKeyed (ts ++ us) := by
  induction first with
  | nil => exact second
  | other differs _ ih => exact .other differs ih
  | order opens _ ih => exact .order opens ih

theorem of_notMem (plain : .word "ORDER" ∉ ts) : OrdersKeyed ts := by
  induction ts with
  | nil => exact .nil
  | cons t ts ih =>
    rw [List.mem_cons, not_or] at plain
    exact .other (Ne.symm plain.1) (ih plain.2)

theorem not_dangles (keyed : OrdersKeyed ts) : ¬ OrderDangles ts := by
  rintro ⟨before, after, split, ends⟩
  induction keyed generalizing before with
  | nil => cases before <;> cases split
  | other differs _ ih =>
    cases before with
    | nil =>
      cases split
      exact differs rfl
    | cons t before =>
      cases split
      exact ih before rfl
  | @order key ts opens _ ih =>
    rcases before with _ | ⟨first, _ | ⟨second, before⟩⟩
    · cases split
      cases opens.symm.trans (ends key rfl)
    · -- The second word would have to be `ORDER` and is `BY`.
      simp at split
    · simp only [List.cons_append, List.cons.injEq] at split
      exact ih before split.2.2

end OrdersKeyed

/-! ## Scripts -/

namespace Script

/-- If the script is complete, every `ORDER BY` in it has a key. -/
def Keyed (s : Script) : Prop := s.complete = true → OrdersKeyed s.tokens

/-- If the script is complete, it has a first lexeme that does not end a query, and every `ORDER
BY` in it has a key. -/
def OpensKeyed (s : Script) : Prop :=
  s.complete = true →
    OrdersKeyed s.tokens ∧ ∃ key rest, s.tokens = key :: rest ∧ key.endsQuery = false

variable {s next : Script} {ts : List Lexeme}

theorem OpensKeyed.keyed (opens : s.OpensKeyed) : s.Keyed := fun complete => (opens complete).1

theorem complete_append (done : (s ++ next).complete = true) :
    s.complete = true ∧ next.complete = true ∧ (s ++ next).tokens = s.tokens ++ next.tokens := by
  change (append s next).complete = true at done
  cases whole : s.complete with
  | false =>
    rw [append, if_neg (by simp [whole]), whole] at done
    cases done
  | true =>
    have more : next.complete = true := by simpa [append, whole] using done
    exact ⟨rfl, more, (Writes.append ⟨whole, rfl⟩ ⟨more, rfl⟩).tokens⟩

theorem Keyed.append (first : s.Keyed) (second : next.Keyed) : (s ++ next).Keyed := by
  intro done
  obtain ⟨whole, more, tokens⟩ := complete_append done
  rw [tokens]
  exact (first whole).append (second more)

theorem OpensKeyed.append (first : s.OpensKeyed) (second : next.Keyed) :
    (s ++ next).OpensKeyed := by
  intro done
  obtain ⟨whole, more, tokens⟩ := complete_append done
  obtain ⟨keyed, key, rest, start, opens⟩ := first whole
  rw [tokens]
  refine ⟨keyed.append (second more), key, rest ++ next.tokens, ?_, opens⟩
  rw [start, List.cons_append]

theorem keyed_of_tokens (tokens : s.tokens = ts) (plain : .word "ORDER" ∉ ts) : s.Keyed :=
  fun _ => tokens ▸ .of_notMem plain

theorem opensKeyed_of_tokens {key : Lexeme} (tokens : s.tokens = key :: ts)
    (plain : .word "ORDER" ∉ key :: ts) (opens : key.endsQuery = false) : s.OpensKeyed :=
  fun _ => ⟨tokens ▸ .of_notMem plain, key, ts, tokens, opens⟩

theorem opensKeyed_word {text : String}
    (plain : text ∉ ["ORDER", ")", "UNION", "INTERSECT", "EXCEPT"]) : (word text).OpensKeyed := by
  rw [List.mem_cons, not_or] at plain
  refine opensKeyed_of_tokens rfl (by simpa using Ne.symm plain.1) ?_
  simpa [Lexeme.endsQuery] using plain.2

theorem opensKeyed_verbatim (text : String) : (ofList [.verbatim text]).OpensKeyed :=
  opensKeyed_of_tokens rfl (by simp) rfl

theorem opensKeyed_identifier (parts : List String) : (ofList [.identifier parts]).OpensKeyed :=
  opensKeyed_of_tokens rfl (by simp) rfl

theorem opensKeyed_missing : missing.OpensKeyed := by
  intro complete
  cases complete

theorem keyed_empty : empty.Keyed := keyed_of_tokens rfl List.not_mem_nil

theorem keyed_blank : blank.Keyed := keyed_of_tokens rfl List.not_mem_nil

theorem keyed_comma : comma.Keyed := keyed_of_tokens rfl (by decide)

theorem tokens_words (texts : List String) : (words texts).tokens = texts.map .word := by
  induction texts with
  | nil => rfl
  | cons text rest ih =>
    cases rest with
    | nil => rfl
    | cons next rest => simpa [words, tokens, ofList] using ih

theorem keyed_words {texts : List String} (plain : "ORDER" ∉ texts) : (words texts).Keyed :=
  keyed_of_tokens (tokens_words texts) (by simpa using plain)

theorem keyed_spaced {texts : List String} (plain : "ORDER" ∉ texts) : (spaced texts).Keyed :=
  (keyed_blank.append (keyed_words plain)).append keyed_blank

theorem Keyed.bracketed (keyed : s.Keyed) : s.bracketed.OpensKeyed := by
  have opening : (word "(").OpensKeyed := opensKeyed_word (by decide)
  have closing : (word ")").Keyed := keyed_of_tokens rfl (by decide)
  exact (opening.append keyed).append closing

/-- The words of the clause need a key behind them. -/
theorem OpensKeyed.orderBy (keys : s.OpensKeyed) : (spaced ["ORDER", "BY"] ++ s).Keyed := by
  intro done
  obtain ⟨_, whole, tokens⟩ := complete_append done
  obtain ⟨keyed, key, rest, start, opens⟩ := keys whole
  have words : (spaced ["ORDER", "BY"]).tokens = [.word "ORDER", .word "BY"] := rfl
  rw [tokens, words, start]
  exact .order opens (start ▸ keyed)

end Script

section Separated

variable {separator : Script} {scripts : List Script}

theorem keyed_separated (between : separator.Keyed) (each : ∀ s ∈ scripts, s.Keyed) :
    (separated separator scripts).Keyed := by
  fun_induction separated separator scripts with
  | case1 => exact Script.keyed_empty
  | case2 only => exact each only (.head _)
  | case3 first rest _ ih =>
    obtain ⟨head, tail⟩ := List.forall_mem_cons.mp each
    exact (head.append between).append (ih tail)

theorem opensKeyed_separated (between : separator.Keyed) (nonempty : scripts ≠ [])
    (each : ∀ s ∈ scripts, s.OpensKeyed) : (separated separator scripts).OpensKeyed := by
  cases scripts with
  | nil => exact absurd rfl nonempty
  | cons first rest =>
    obtain ⟨head, tail⟩ := List.forall_mem_cons.mp each
    cases rest with
    | nil => exact head
    | cons second rest =>
      exact (head.append between).append (keyed_separated between fun s member =>
        (tail s member).keyed)

end Separated

/-! ## Calls -/

/-- The operand is a key wherever it stands. -/
def Operand.OpensKeyed (operand : Operand) : Prop := ∀ least, (operand.write least).OpensKeyed

section Calls

variable {operands : List Operand} (each : ∀ operand ∈ operands, operand.OpensKeyed)

include each

theorem keyed_listed : (listed operands).Keyed := by
  refine keyed_separated Script.keyed_comma (List.forall_mem_map.mpr fun operand member => ?_)
  exact (each operand member 0).keyed

theorem opensKeyed_firstOperand (least : Nat) : (firstOperand least operands).OpensKeyed := by
  cases operands with
  | nil => exact Script.opensKeyed_missing
  | cons operand rest => exact each operand (.head _) least

theorem opensKeyed_chain {op : ScalarOp} {symbol unit : String}
    (between : (Script.spaced [symbol]).Keyed) (alone : (Script.word unit).OpensKeyed) :
    (chain op symbol unit operands).OpensKeyed := by
  cases operands with
  | nil => exact alone
  | cons first rest =>
    obtain ⟨head, tail⟩ := List.forall_mem_cons.mp each
    refine opensKeyed_separated between (List.cons_ne_nil _ _)
      (List.forall_mem_cons.mpr ⟨head _, ?_⟩)
    exact List.forall_mem_map.mpr fun operand member => tail operand member _

theorem keyed_branches : (branches operands).Keyed := by
  fun_induction branches operands with
  | case1 condition result rest ih =>
    simp only [List.forall_mem_cons] at each
    obtain ⟨first, second, others⟩ := each
    exact ((((Script.keyed_spaced (by decide)).append (first 0).keyed).append
      (Script.keyed_spaced (by decide))).append (second 0).keyed).append (ih others)
  | case2 default =>
    exact (Script.keyed_spaced (by decide)).append (each default (.head _) 0).keyed
  | case3 => exact Script.keyed_empty

theorem opensKeyed_infixCall {op : ScalarOp} {symbol : String}
    (between : (Script.spaced [symbol]).Keyed) (word : (Script.word symbol).OpensKeyed) :
    (infixCall op symbol operands).OpensKeyed := by
  unfold infixCall
  split
  · rename_i left right
    have first := each left (.head _) op.precedence
    have second := each right (.tail _ (.head _)) (op.precedence + 1)
    exact (first.append between).append second.keyed
  · exact word.append (keyed_listed each).bracketed.keyed

theorem opensKeyed_negation : (negation operands).OpensKeyed := by
  have minus : (Script.word "-").OpensKeyed := Script.opensKeyed_word (by decide)
  cases operands with
  | nil => exact minus.append Script.opensKeyed_missing.keyed
  | cons operand rest =>
    have own := each operand (.head _)
    refine minus.append ?_
    split
    · exact (own 0).keyed.bracketed.keyed
    · exact (own _).keyed

theorem opensKeyed_nullTest (op : ScalarOp) {keywords : List String}
    (plain : "ORDER" ∉ keywords) : (nullTest op keywords operands).OpensKeyed :=
  ((opensKeyed_firstOperand each _).append Script.keyed_blank).append (Script.keyed_words plain)

/-- A call without brackets around it begins with an operand or with a word of its operator. -/
theorem opensKeyed_scalarCall (op : ScalarOp) : (scalarCallScript op operands).OpensKeyed := by
  cases op with
  | and =>
    exact opensKeyed_chain each (Script.keyed_spaced (by decide))
      (Script.opensKeyed_word (by decide))
  | or =>
    exact opensKeyed_chain each (Script.keyed_spaced (by decide))
      (Script.opensKeyed_word (by decide))
  | not =>
    have word : (Script.word "NOT").OpensKeyed := Script.opensKeyed_word (by decide)
    exact (word.append Script.keyed_blank).append (opensKeyed_firstOperand each _).keyed
  | negate => exact opensKeyed_negation each
  | isNull => exact opensKeyed_nullTest each .isNull (by decide)
  | isNotNull => exact opensKeyed_nullTest each .isNotNull (by decide)
  | caseWhen =>
    have word : (Script.word "CASE").OpensKeyed := Script.opensKeyed_word (by decide)
    have last : (Script.word "END").OpensKeyed := Script.opensKeyed_word (by decide)
    exact ((word.append (keyed_branches each)).append Script.keyed_blank).append last.keyed
  | cast type =>
    have word : (Script.word "CAST").OpensKeyed := Script.opensKeyed_word (by decide)
    have target : (Script.ofList [.verbatim type]).Keyed :=
      (Script.opensKeyed_verbatim type).keyed
    have operand := (opensKeyed_firstOperand each 0).keyed
    exact word.append
      ((operand.append (Script.keyed_spaced (by decide))).append target).bracketed.keyed
  | function name =>
    exact (Script.opensKeyed_verbatim name).append (keyed_listed each).bracketed.keyed
  | _ =>
    exact opensKeyed_infixCall each (Script.keyed_spaced (by decide))
      (Script.opensKeyed_word (by decide))

theorem opensKeyed_call (operator : Operator) : (callScript operator operands).OpensKeyed := by
  cases operator with
  | scalar op => exact opensKeyed_scalarCall each op
  | aggregate name distinct =>
    refine (Script.opensKeyed_verbatim name).append (Script.Keyed.bracketed ?_).keyed
    split
    · exact Script.keyed_of_tokens rfl (by decide)
    · refine Script.Keyed.append ?_ (keyed_listed each)
      split
      · exact Script.keyed_of_tokens rfl (by decide)
      · exact Script.keyed_empty

end Calls

theorem opensKeyed_literal (value : Literal) :
    (Script.ofList (literalLexemes value)).OpensKeyed := by
  have numeral (negative : Bool) (unsigned : String) :
      (Script.ofList (signed negative unsigned)).OpensKeyed := by
    cases negative with
    | false => exact Script.opensKeyed_of_tokens rfl (by simp) rfl
    | true => exact Script.opensKeyed_of_tokens rfl (by simp) (by decide)
  cases value with
  | null => exact Script.opensKeyed_word (by decide)
  | boolean value =>
    cases value with
    | false => exact Script.opensKeyed_word (by decide)
    | true => exact Script.opensKeyed_word (by decide)
  | integer n => exact numeral _ _
  | decimal text =>
    rw [literalLexemes]
    split
    · exact numeral _ _
    · exact numeral _ _
  | double x => exact numeral _ _
  | string content => exact Script.opensKeyed_of_tokens rfl (by simp) rfl

/-! ## Queries -/

theorem keyed_clause {keywords : List String} {part : Option Script} (plain : "ORDER" ∉ keywords)
    (own : ∀ s ∈ part, s.Keyed) : (clause keywords part).Keyed := by
  cases part with
  | none => exact Script.keyed_empty
  | some s => exact (Script.keyed_spaced plain).append (own s rfl)

/-- A query begins with `SELECT`, and the words of its order have keys. -/
theorem opensKeyed_selectScript {projection groupBy orderBy : Option (List Script)}
    {source selection having : Option Script} (items : ∀ list ∈ projection, ∀ s ∈ list, s.Keyed)
    (rows : ∀ s ∈ source, s.Keyed) (condition : ∀ s ∈ selection, s.Keyed)
    (groups : ∀ list ∈ groupBy, ∀ s ∈ list, s.Keyed) (filter : ∀ s ∈ having, s.Keyed)
    (order : ∀ list ∈ orderBy, list ≠ [] ∧ ∀ s ∈ list, s.OpensKeyed) :
    (selectScript projection source selection groupBy having orderBy).OpensKeyed := by
  have opening : (Script.word "SELECT").OpensKeyed := Script.opensKeyed_word (by decide)
  have listed : (if (projection.getD []).isEmpty then Script.word "*"
      else separated .comma (projection.getD [])).Keyed := by
    split
    · exact Script.keyed_of_tokens rfl (by decide)
    · refine keyed_separated Script.keyed_comma fun s member => ?_
      cases projection with
      | none => cases member
      | some list => exact items list rfl s member
  have grouped : ∀ s ∈ groupBy.map fun keys =>
      if keys.isEmpty then Script.word "(" ++ .word ")" else separated .comma keys, s.Keyed := by
    intro s present
    obtain ⟨keys, own, rfl⟩ := Option.map_eq_some_iff.mp present
    split
    · exact Script.keyed_of_tokens rfl (by decide)
    · exact keyed_separated Script.keyed_comma (groups keys own)
  have ordered : (clause ["ORDER", "BY"] (orderBy.map (separated .comma))).Keyed := by
    cases orderBy with
    | none => exact Script.keyed_empty
    | some keys =>
      obtain ⟨nonempty, each⟩ := order keys rfl
      exact (opensKeyed_separated Script.keyed_comma nonempty each).orderBy
  exact ((((((opening.append Script.keyed_blank).append listed).append
    (keyed_clause (by decide) rows)).append (keyed_clause (by decide) condition)).append
    (keyed_clause (by decide) grouped)).append (keyed_clause (by decide) filter)).append ordered

theorem opensKeyed_joinScript {left right : Script} {kind : JoinKind} {condition : Option Script}
    (first : left.OpensKeyed) (second : right.Keyed) (test : ∀ s ∈ condition, s.Keyed) :
    (joinScript left kind right condition).OpensKeyed := by
  have keywords : "ORDER" ∉ joinKeywords kind := by cases kind <;> decide
  have tested : (condition.getD (.word "TRUE")).Keyed := by
    cases condition with
    | none => exact Script.keyed_of_tokens rfl (by decide)
    | some s => exact test s rfl
  exact (((first.append (Script.keyed_spaced keywords)).append second).append
    (Script.keyed_spaced (by decide))).append tested

theorem keyed_orderSuffix (descending : Bool) (nulls : Option NullsOrder) :
    (orderSuffix descending nulls).Keyed := by
  cases descending <;> rcases nulls with _ | _ | _ <;>
    exact Script.keyed_of_tokens rfl (by decide)

/-! ## Trees -/

section Clauses

variable {place : Place}

theorem keyed_listScript? {clause : Option (List Node)}
    (each : ∀ node ∈ clause.getD [], (node.script (.operand 0)).OpensKeyed) :
    ∀ scripts ∈ listScript? clause, ∀ s ∈ scripts, s.Keyed := by
  cases clause with
  | none =>
    intro scripts present
    cases present
  | some nodes =>
    rintro _ ⟨⟩
    rw [scriptsOf_eq_map]
    exact List.forall_mem_map.mpr fun node member => (each node member).keyed

theorem keyed_nodeScript? {slot : Option Node}
    (own : ∀ node ∈ slot, (node.script place).OpensKeyed) :
    ∀ s ∈ nodeScript? place slot, s.Keyed := by
  cases slot with
  | none =>
    intro s present
    cases present
  | some node =>
    rintro _ ⟨⟩
    exact (own node rfl).keyed

theorem OrderItem.opensKeyed_script {item : OrderItem}
    (own : (item.expr.script (.operand 0)).OpensKeyed) : item.script.OpensKeyed := by
  rcases item with ⟨expr, descending, nulls⟩
  rw [OrderItem.script]
  exact own.append (keyed_orderSuffix descending nulls)

theorem opensKeyed_orderScript? {clause : Option (List OrderItem)} (keyed : clause ≠ some [])
    (each : ∀ item ∈ clause.getD [], (item.expr.script (.operand 0)).OpensKeyed) :
    ∀ keys ∈ orderScript? clause, keys ≠ [] ∧ ∀ s ∈ keys, s.OpensKeyed := by
  cases clause with
  | none =>
    intro keys present
    cases present
  | some items =>
    rintro _ ⟨⟩
    rw [ordersOf_eq_map]
    refine ⟨fun blank => keyed (congrArg some (List.map_eq_nil_iff.mp blank)), ?_⟩
    exact List.forall_mem_map.mpr fun item member =>
      OrderItem.opensKeyed_script (each item member)

end Clauses

theorem Select.opensKeyed_script {query : Select} (keyed : query.orderBy ≠ some [])
    (source : ∀ node ∈ query.source, (node.script .source).OpensKeyed)
    (each : ∀ e ∈ query.ownExpressions, (e.script (.operand 0)).OpensKeyed) :
    query.script.OpensKeyed := by
  obtain ⟨items, condition, groups, filter, order⟩ := forall_ownExpressions_iff.mp each
  rcases query with ⟨projection, rows, selection, groupBy, having, orderBy⟩
  rw [Select.script]
  exact opensKeyed_selectScript (keyed_listScript? items) (keyed_nodeScript? source)
    (keyed_nodeScript? condition) (keyed_listScript? groups) (keyed_nodeScript? filter)
    (opensKeyed_orderScript? keyed order)

theorem Join.opensKeyed_script {join : Join} (left : (join.left.script .source).OpensKeyed)
    (right : (join.right.script .source).OpensKeyed)
    (on : ∀ node ∈ join.condition, (node.script (.operand 0)).OpensKeyed) :
    join.script.OpensKeyed := by
  rcases join with ⟨_, kind, _, condition⟩
  rw [Join.script]
  refine opensKeyed_joinScript left ?_ (keyed_nodeScript? on)
  split
  · exact right.keyed.bracketed.keyed
  · exact right.keyed

/-- If the node is a query with an order, the order has a key. -/
def Node.OrdersByKeys : Node → Prop
  | .select query => query.orderBy ≠ some []
  | _ => True

/-- Where every order of a tree has a key, so has every `ORDER BY` of its text, wherever the tree
stands.  Only a set operation that is the whole statement may have no first lexeme. -/
theorem Node.keyed_script {node : Node} (keyed : ∀ part ∈ node.parts, part.OrdersByKeys)
    (place : Place) :
    (node.script place).Keyed ∧ (place ≠ .top → (node.script place).OpensKeyed) := by
  induction node using Node.children_induction generalizing place with
  | step node ih =>
    obtain ⟨own, below⟩ := node.forall_parts_iff.mp keyed
    have whole {part : Node} (child : part ∈ node.children) : (part.script .top).Keyed :=
      (ih part child (below part child) .top).1
    have within {part : Node} (child : part ∈ node.children) (place : Place)
      (inner : place ≠ .top) :
        (part.script place).OpensKeyed := (ih part child (below part child) place).2 inner
    have both {s : Script} (opens : s.OpensKeyed) : s.Keyed ∧ (place ≠ .top → s.OpensKeyed) :=
      ⟨opens.keyed, fun _ => opens⟩
    cases node with
    | identifier parts =>
      rw [Node.script]
      exact both (Script.opensKeyed_identifier parts)
    | literal value =>
      rw [Node.script]
      exact both (opensKeyed_literal value)
    | call operator operands =>
      have call : (callScript operator (operandsOf operands)).OpensKeyed := by
        refine opensKeyed_call ?_ operator
        rw [operandsOf_eq_map]
        exact List.forall_mem_map.mpr fun node member least =>
          within member (.operand least) (by simp)
      simp only [Node.script]
      split
      · exact both call.keyed.bracketed
      · exact both call
    | named expr name =>
      have child : expr ∈ (Node.named expr name).children := List.mem_singleton_self expr
      have suffix : (nameSuffix name).Keyed :=
        (Script.keyed_spaced (by decide)).append (Script.opensKeyed_identifier [name]).keyed
      rw [Node.script]
      refine both (Script.OpensKeyed.append ?_ suffix)
      split
      · split
        · exact (whole child).bracketed
        · exact within child .source (by decide)
      · exact within child (.operand 0) (by decide)
    | select query =>
      have opens : query.script.OpensKeyed := by
        refine Select.opensKeyed_script own (fun node member => ?_) fun e member => ?_
        · exact within (List.mem_append_left _ (Option.mem_toList.mpr member)) .source (by decide)
        · exact within (List.mem_append_right _ member) (.operand 0) (by decide)
      rw [Node.script]
      split
      · exact both opens
      · exact both opens.keyed.bracketed
    | setOp operator inputs =>
      have plain : "ORDER" ∉ operator.keywords := by cases operator <;> decide
      have members : (separated (.spaced operator.keywords)
          (scriptsOf .member inputs)).Keyed := by
        rw [scriptsOf_eq_map]
        refine keyed_separated (Script.keyed_spaced plain)
          (List.forall_mem_map.mpr fun node member => ?_)
        exact (within member .member (by decide)).keyed
      simp only [Node.script]
      -- Of no inputs nothing is written, so that only brackets give it a first lexeme.
      split
      · exact ⟨members, fun inner => absurd ‹_› inner⟩
      · exact both members.bracketed
    | join join =>
      rcases join with ⟨left, kind, right, condition⟩
      rw [Node.script]
      refine both (Join.opensKeyed_script ?_ ?_ fun node member => ?_)
      · exact within (.head _) .source (by decide)
      · exact within (.tail _ (.head _)) .source (by decide)
      · exact within (.tail _ (.tail _ (Option.mem_toList.mpr member))) (.operand 0) (by decide)

end Pushdown.Sql
