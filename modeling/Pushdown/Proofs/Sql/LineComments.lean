import Mathlib.Data.List.Chain
import Pushdown.Proofs.Sql.Quoting
import Pushdown.Proofs.Sql.RoundTrip

/-!
# No expression opens a line comment

Two minus signs next to each other hide what is left of their line.  Signs come from negative
numerals and their exponents, from negations and from the minus operator, and any of them may end
up at the left edge of an operand.  The printer looks at the operand of a negation alone, and only
at its root.  That is enough: all else that begins with a sign binds looser than a negation, so
that brackets keep it apart, and behind every other operand stands a blank, a comma or a bracket.

A text is calm if no two signs in it are neighbours, and a script is `Calm`, `Mild` or a script
that `Parts` if its text is calm by itself, behind a sign, or between two signs.  These compose:
what is mild may follow what is calm, and what is calm may follow what parts.
-/

namespace Pushdown

namespace Text

/-- Two minus signs next to each other, which open a comment up to the end of the line. -/
def OpensComment (text : String) : Prop := ['-', '-'] <:+: text.toList

instance (text : String) : Decidable (OpensComment text) :=
  inferInstanceAs (Decidable (['-', '-'] <:+: text.toList))

/-- No minus sign is followed by another. -/
def Calm (cs : List Char) : Prop := cs.IsChain fun c next => c = '-' → next ≠ '-'

instance (cs : List Char) : Decidable (Calm cs) :=
  inferInstanceAs (Decidable (cs.IsChain fun c next => c = '-' → next ≠ '-'))

/-- A text opens no comment when it is calm. -/
theorem not_opensComment_iff {text : String} : ¬ OpensComment text ↔ Calm text.toList := by
  unfold Calm
  rw [List.isChain_iff_forall_rel_of_append_cons_cons]
  constructor
  · intro clear c next before after split first second
    apply clear
    refine ⟨before, after, ?_⟩
    rw [split, first, second]
    simp
  · rintro neighbours ⟨before, after, whole⟩
    have split : text.toList = before ++ '-' :: '-' :: after := by simp [← whole]
    exact neighbours split rfl rfl

namespace Calm

variable {first second cs : List Char}

theorem tail (calm : Calm ('-' :: cs)) : Calm cs := (List.isChain_cons.mp calm).2

/-- What is calm behind a sign may stand behind any calm text. -/
theorem append (calm : Calm first) (mild : Calm ('-' :: second)) : Calm (first ++ second) := by
  obtain ⟨start, rest⟩ := List.isChain_cons.mp mild
  refine List.isChain_append.mpr ⟨calm, rest, ?_⟩
  intro _ _ next opens _
  exact start next opens rfl

/-- Any calm text may stand behind what is calm between two signs. -/
theorem append_of_parts (parts : Calm ('-' :: first ++ ['-'])) (calm : Calm second) :
    Calm ('-' :: (first ++ second)) := by
  obtain ⟨mild, _, last⟩ := List.isChain_append.mp parts
  rw [← List.cons_append]
  refine List.isChain_append.mpr ⟨mild, calm, ?_⟩
  intro c final _ _ sign
  exact absurd rfl (last c final '-' rfl sign)

theorem cons_of_notMem (absent : '-' ∉ cs) : Calm ('-' :: cs) := by
  induction cs with
  | nil => exact List.isChain_singleton _
  | cons c cs ih =>
    rw [List.mem_cons, not_or] at absent
    apply List.isChain_cons_cons.mpr
    refine ⟨fun _ => Ne.symm absent.1, ?_⟩
    refine List.isChain_cons.mpr ⟨?_, (ih absent.2).tail⟩
    intro _ _ sign
    exact absurd sign.symm absent.1

/-- A text without signs keeps signs on both sides of it apart. -/
theorem parts_of_notMem (absent : '-' ∉ cs) (nonempty : cs ≠ []) : Calm ('-' :: cs ++ ['-']) := by
  refine List.isChain_append.mpr ⟨cons_of_notMem absent, List.isChain_singleton _, ?_⟩
  intro c final _ _ sign
  rw [List.getLast?_cons_of_ne_nil nonempty] at final
  exact absurd (sign ▸ List.mem_of_getLast? final) absent

end Calm

end Text

/-! ## Numerals -/

theorem notMem_toDigits (n : Nat) : '-' ∉ Nat.toDigits 10 n := by
  intro member
  cases Nat.isDigit_of_mem_toDigits (by decide) (by decide) member

/-- The sign of an exponent is behind a letter and before a digit. -/
theorem Decimal.mild_scientific (d : Decimal) : Text.Calm ('-' :: d.scientific) := by
  have exponent : Text.Calm (toString d.leading).toList := by
    have digits : (toString d.leading).toList =
        if 0 ≤ d.leading then Nat.toDigits 10 d.leading.toNat
        else '-' :: Nat.toDigits 10 (-d.leading).toNat := by
      change (Int.repr d.leading).toList = _
      rw [Int.repr_eq_if]
      split <;> simp
    rw [digits]
    split
    · exact (Text.Calm.cons_of_notMem (notMem_toDigits _)).tail
    · exact Text.Calm.cons_of_notMem (notMem_toDigits _)
  have behind {mantissa : List Char} (absent : '-' ∉ mantissa) :
      Text.Calm ('-' :: (mantissa ++ 'e' :: (toString d.leading).toList)) := by
    have letter : '-' ∉ mantissa ++ ['e'] := by simp [absent]
    have parted := Text.Calm.append_of_parts (Text.Calm.parts_of_notMem letter (by simp)) exponent
    rwa [List.append_assoc] at parted
  have digits : '-' ∉ d.figures := notMem_toDigits d.digits
  unfold scientific
  dsimp only
  split
  · rename_i figures
    apply behind
    simpa [figures] using digits
  · exact behind digits

theorem Decimal.notMem_positional (d : Decimal) : '-' ∉ d.positional := by
  have digits : '-' ∉ d.figures := notMem_toDigits d.digits
  have front (n : Nat) : '-' ∉ d.figures.take n := fun member =>
    digits (List.mem_of_mem_take member)
  have back (n : Nat) : '-' ∉ d.figures.drop n := fun member =>
    digits (List.mem_of_mem_drop member)
  unfold Decimal.positional
  dsimp only
  split
  · simp [digits]
  · split
    · simp [front, back]
    · simp [digits]

/-- Without its sign a number neither begins with one nor has two next to each other. -/
theorem Binary64.mild_unsignedText (x : Binary64) : Text.Calm ('-' :: x.unsignedText.toList) := by
  unfold unsignedText
  split
  · decide
  · split
    · decide
    · split
      · decide
      · dsimp only
        rw [String.toList_ofList]
        split
        · exact Text.Calm.cons_of_notMem (Decimal.notMem_positional _)
        · exact Decimal.mild_scientific _

/-! ## Quoted text -/

/-- Doubling marks brings no character of its own. -/
theorem Text.mem_of_mem_doubled {mark c : Char} {cs : List Char} (member : c ∈ doubled mark cs) :
    c ∈ cs := by
  induction cs with
  | nil => exact member
  | cons d cs ih =>
    rw [doubled] at member
    split at member
    · simp only [List.mem_cons] at member ⊢
      rcases member with same | same | below
      · exact .inl same
      · exact .inl same
      · exact .inr (ih below)
    · rcases List.mem_cons.mp member with same | below
      · exact List.mem_cons.mpr (.inl same)
      · exact List.mem_cons.mpr (.inr (ih below))

theorem Text.notMem_quoted {opening closing : Char} {s : String} (opens : '-' ≠ opening)
    (closes : '-' ≠ closing) (absent : '-' ∉ s.toList) :
    '-' ∉ (quoted opening closing s).toList := by
  have inside : '-' ∉ doubled closing s.toList := fun member => absent (mem_of_mem_doubled member)
  simp [quoted, opens, closes, inside]

namespace Sql

theorem QuoteStyle.notMem_quote (style : QuoteStyle) {part : String}
    (absent : '-' ∉ part.toList) :
    '-' ∉ (style.quote part).toList := by
  cases style with
  | none => exact absent
  | doubleQuote => exact Text.notMem_quoted (by decide) (by decide) absent
  | backtick => exact Text.notMem_quoted (by decide) (by decide) absent
  | bracket => exact Text.notMem_quoted (by decide) (by decide) absent

theorem QuoteStyle.notMem_identifier (style : QuoteStyle) {parts : List String}
    (absent : ∀ part ∈ parts, '-' ∉ part.toList) : '-' ∉ (style.identifier parts).toList := by
  by_cases none : parts = []
  · simp [none, QuoteStyle.identifier]
  · have pointed : '-' ∉ (style.pointed parts).toList := by
      simp only [QuoteStyle.pointed, String.toList_join, List.flatMap_map,
        List.mem_flatMap, not_exists,
        not_and]
      intro part member
      simpa using style.notMem_quote (absent part member)
    rw [QuoteStyle.pointed_eq none] at pointed
    simpa using pointed

/-! ## Scripts -/

namespace Script

/-- The characters of the script, as far as it was written. -/
def chars (style : QuoteStyle) (s : Script) : List Char := (textOf style s.lexemes).toList

/-- The script opens no comment by itself. -/
def Calm (style : QuoteStyle) (s : Script) : Prop := Text.Calm (s.chars style)

/-- The script opens no comment, not even behind a minus sign. -/
def Mild (style : QuoteStyle) (s : Script) : Prop := Text.Calm ('-' :: s.chars style)

/-- The script opens no comment, not even between two minus signs. -/
def Parts (style : QuoteStyle) (s : Script) : Prop := Text.Calm ('-' :: s.chars style ++ ['-'])

variable {style : QuoteStyle} {s next separator : Script}

theorem chars_ofList (lexemes : List Lexeme) :
    (ofList lexemes).chars style = lexemes.flatMap fun t => (t.text style).toList := by
  simp [chars, ofList, textOf, String.toList_join, List.flatMap_map]

theorem chars_append (s next : Script) :
    (s ++ next).chars style =
      if s.complete then s.chars style ++ next.chars style else s.chars style := by
  change (append s next).chars style = _
  unfold append
  split <;> simp [chars, textOf, String.join_append]

theorem Mild.calm (mild : s.Mild style) : s.Calm style := Text.Calm.tail mild

theorem Parts.mild (parts : s.Parts style) : s.Mild style := (List.isChain_append.mp parts).1

theorem Calm.append (first : s.Calm style) (second : next.Mild style) :
    (s ++ next).Calm style := by
  unfold Calm
  rw [chars_append]
  split
  · exact Text.Calm.append first second
  · exact first

theorem Mild.append (first : s.Mild style) (second : next.Mild style) :
    (s ++ next).Mild style := by
  unfold Mild
  rw [chars_append]
  split
  · exact Text.Calm.append first second
  · exact first

theorem Parts.append (first : s.Parts style) (second : next.Calm style) :
    (s ++ next).Mild style := by
  unfold Mild
  rw [chars_append]
  split
  · exact Text.Calm.append_of_parts first second
  · exact first.mild

/-- Between two scripts stands what keeps them apart. -/
theorem Calm.between (first : s.Calm style) (parts : separator.Parts style)
    (second : next.Calm style) :
    (s ++ separator ++ next).Calm style := by
  rw [append_assoc]
  exact first.append (parts.append second)

theorem mild_of_notMem (absent : '-' ∉ s.chars style) : s.Mild style :=
  Text.Calm.cons_of_notMem absent

theorem parts_of_notMem (absent : '-' ∉ s.chars style) (nonempty : s.chars style ≠ []) :
    s.Parts style := Text.Calm.parts_of_notMem absent nonempty

theorem chars_word (text : String) : (word text).chars style = text.toList := by
  rw [word, chars_ofList]
  simp [Lexeme.text]

theorem mild_word {text : String} (absent : '-' ∉ text.toList) : (word text).Mild style :=
  mild_of_notMem (by rwa [chars_word])

theorem mild_verbatim {text : String} (absent : '-' ∉ text.toList) :
    (ofList [.verbatim text]).Mild style := by
  apply mild_of_notMem
  rw [chars_ofList]
  simpa [Lexeme.text] using absent

theorem mild_empty : empty.Mild style := mild_of_notMem (by simp [empty, chars_ofList])

theorem mild_missing : missing.Mild style := mild_of_notMem (by simp [missing, chars, textOf])

theorem parts_blank : blank.Parts style :=
  parts_of_notMem (by simp [blank, chars_ofList, Lexeme.text])
    (by simp [blank, chars_ofList, Lexeme.text])

theorem parts_comma : comma.Parts style := by
  have own : comma = ofList [.word ",", .blank] := rfl
  apply parts_of_notMem <;> simp [own, chars_ofList, Lexeme.text]

/-- A word in blanks keeps what is around it apart, even if it is a minus sign. -/
theorem parts_spaced {text : String} (calm : Text.Calm text.toList) :
    (spaced [text]).Parts style := by
  have blank : Text.Calm ('-' :: [' '] ++ ['-']) := by decide
  have inside : Text.Calm (text.toList ++ [' ', '-']) := calm.append blank
  have whole := blank.append_of_parts inside
  have own : spaced [text] = ofList [.blank, .word text, .blank] := rfl
  rw [Parts, own, chars_ofList]
  simpa [Lexeme.text] using whole

theorem Calm.bracketed (calm : s.Calm style) : s.bracketed.Mild style := by
  have opening : (word "(").Parts style := by
    apply parts_of_notMem <;> simp [chars_word]
  have closing : (word ")").Mild style := mild_word (by decide)
  rw [Script.bracketed, append_assoc]
  exact opening.append (calm.append closing)

end Script

variable {style : QuoteStyle}

theorem calm_separated {separator : Script} {scripts : List Script}
    (between : separator.Parts style)
    (each : ∀ s ∈ scripts, s.Calm style) : (separated separator scripts).Calm style := by
  induction scripts with
  | nil => exact Script.mild_empty.calm
  | cons first rest ih =>
    obtain ⟨head, tail⟩ := List.forall_mem_cons.mp each
    cases rest with
    | nil => exact head
    | cons second rest => exact head.between between (ih tail)

/-! ## Calls -/

/-- The operand opens no comment wherever it stands.  As the operand of a negation it does not
even open one behind the sign, unless it is known to begin with a sign itself. -/
structure Operand.Calm (style : QuoteStyle) (operand : Operand) : Prop where
  anywhere : ∀ least, (operand.write least).Calm style
  negated : operand.opensWithMinus = false → (operand.write ScalarOp.negate.precedence).Mild style

/-- The name or the type that an operator brings into the text. -/
def Operator.name? : Operator → Option String
  | .scalar (.cast text) | .scalar (.function text) | .aggregate text _ => some text
  | _ => none

/-- The name that the operator brings has no minus sign. -/
def Operator.Tame (operator : Operator) : Prop := ∀ name ∈ operator.name?, '-' ∉ name.toList

instance : DecidablePred Operator.Tame := fun operator =>
  inferInstanceAs (Decidable (∀ name ∈ operator.name?, '-' ∉ name.toList))

section Calls

variable {operands : List Operand} (each : ∀ operand ∈ operands, operand.Calm style)

include each

theorem calm_listed : (listed operands).Calm style := by
  apply calm_separated Script.parts_comma
  rw [List.forall_mem_map]
  exact fun operand member => (each operand member).anywhere 0

theorem calm_firstOperand (least : Nat) : (firstOperand least operands).Calm style := by
  cases operands with
  | nil => exact Script.mild_missing.calm
  | cons operand rest => exact (each operand (.head _)).anywhere least

theorem calm_chain {op : ScalarOp} {symbol unit : String} (between : Text.Calm symbol.toList)
    (alone : '-' ∉ unit.toList) : (chain op symbol unit operands).Calm style := by
  cases operands with
  | nil => exact (Script.mild_word alone).calm
  | cons first rest =>
    obtain ⟨head, tail⟩ := List.forall_mem_cons.mp each
    apply calm_separated (Script.parts_spaced between)
    rw [List.forall_mem_cons, List.forall_mem_map]
    exact ⟨head.anywhere _, fun operand member => (tail operand member).anywhere _⟩

theorem mild_branches : (branches operands).Mild style := by
  have keyword {text : String} (absent : '-' ∉ text.toList) :
      (Script.spaced [text]).Parts style :=
    Script.parts_spaced (Text.Calm.cons_of_notMem absent).tail
  fun_induction branches operands with
  | case1 condition result rest ih =>
    simp only [List.forall_mem_cons] at each
    obtain ⟨first, second, others⟩ := each
    simp only [Script.append_assoc]
    apply (keyword (by decide)).append
    apply (first.anywhere 0).append
    apply (keyword (by decide)).append
    exact (second.anywhere 0).append (ih others)
  | case2 default => exact (keyword (by decide)).append ((each default (.head _)).anywhere 0)
  | case3 => exact Script.mild_empty

theorem calm_infixCall {op : ScalarOp} {symbol : String} (between : Text.Calm symbol.toList) :
    (infixCall op symbol operands).Calm style := by
  unfold infixCall
  split
  · rename_i left right
    have first := (each left (.head _)).anywhere op.precedence
    have second := (each right (.tail _ (.head _))).anywhere (op.precedence + 1)
    exact first.between (Script.parts_spaced between) second
  · have word : (Script.word symbol).Calm style := by
      unfold Script.Calm
      rwa [Script.chars_word]
    exact word.append (calm_listed each).bracketed

/-- The operand of a negation is kept apart from its sign, by brackets or by what it
begins with. -/
theorem calm_negation : (negation operands).Calm style := by
  have sign : (Script.word "-").Calm style := by
    unfold Script.Calm
    rw [Script.chars_word]
    decide
  cases operands with
  | nil => exact sign.append Script.mild_missing
  | cons operand rest =>
    have own := each operand (.head _)
    apply sign.append
    split
    · exact (own.anywhere 0).bracketed
    · rename_i signless
      exact own.negated (Bool.eq_false_iff.mpr signless)

theorem calm_nullTest (op : ScalarOp) {keywords : List String}
    (absent : '-' ∉ (Script.words keywords).chars style) :
    (nullTest op keywords operands).Calm style :=
  (calm_firstOperand each _).between Script.parts_blank (Script.mild_of_notMem absent).calm

/-- A call that binds as tight as a negation and is none begins with a word or a name. -/
theorem mild_call {operator : Operator} (tame : operator.Tame)
    (tight : ScalarOp.negate.precedence ≤ operator.precedence)
    (other : operator ≠ .scalar .negate) :
    (callScript operator operands).Mild style := by
  cases operator with
  | aggregate name distinct =>
    apply (Script.mild_verbatim (tame _ rfl)).append
    apply Script.Calm.bracketed
    split
    · exact (Script.mild_word (by decide)).calm
    · split
      · have keyword : (Script.word "DISTINCT").Mild style := Script.mild_word (by decide)
        exact keyword.calm.between Script.parts_blank (calm_listed each)
      · exact calm_listed each
  | scalar op =>
    cases op with
    | negate => exact absurd rfl other
    | caseWhen =>
      have opening : (Script.word "CASE").Mild style := Script.mild_word (by decide)
      have closing : (Script.word "END").Mild style := Script.mild_word (by decide)
      exact ((opening.append (mild_branches each)).append Script.parts_blank.mild).append closing
    | cast type =>
      have opening : (Script.word "CAST").Mild style := Script.mild_word (by decide)
      have between : (Script.spaced ["AS"]).Parts style := Script.parts_spaced (by decide)
      apply opening.append
      apply Script.Calm.bracketed
      exact (calm_firstOperand each 0).between between (Script.mild_verbatim (tame _ rfl)).calm
    | function name =>
      exact (Script.mild_verbatim (tame _ rfl)).append (calm_listed each).bracketed
    | _ => exact absurd tight (by decide)

/-- No call opens a comment, whatever number of operands it has. -/
theorem calm_call {operator : Operator} (tame : operator.Tame) :
    (callScript operator operands).Calm style := by
  have tight (closed : ScalarOp.negate.precedence ≤ operator.precedence)
      (other : operator ≠ .scalar .negate) : (callScript operator operands).Calm style :=
    (mild_call each tame closed other).calm
  cases operator with
  | aggregate name distinct => exact tight (Nat.le_of_ble_eq_true rfl) (by simp)
  | scalar op =>
    cases op with
    | negate => exact calm_negation each
    | caseWhen => exact tight (by decide) (by simp)
    | cast type => exact tight (Nat.le_of_ble_eq_true rfl) (by simp)
    | function name => exact tight (Nat.le_of_ble_eq_true rfl) (by simp)
    | and => exact calm_chain each (by decide) (by decide)
    | or => exact calm_chain each (by decide) (by decide)
    | not =>
      have keyword : (Script.word "NOT").Mild style := Script.mild_word (by decide)
      exact keyword.calm.between Script.parts_blank (calm_firstOperand each _)
    | isNull =>
      apply calm_nullTest each
      simp [Script.words, Script.chars_ofList, Lexeme.text]
    | isNotNull =>
      apply calm_nullTest each
      simp [Script.words, Script.chars_ofList, Lexeme.text]
    | _ => exact calm_infixCall each (by decide)

end Calls

end Sql

/-! ## Literals -/

/-- The text that a literal brings: a string has no minus sign, and a decimal no two in a row. -/
def Literal.Tame : Literal → Prop
  | .decimal text => ¬ Text.OpensComment text
  | .string content => '-' ∉ content.toList
  | _ => True

instance : DecidablePred Literal.Tame
  | .decimal text => inferInstanceAs (Decidable (¬ Text.OpensComment text))
  | .string content => inferInstanceAs (Decidable ('-' ∉ content.toList))
  | .null | .boolean _ | .integer _ | .double _ => inferInstanceAs (Decidable True)

namespace Sql

variable {style : QuoteStyle}

theorem chars_signed (negative : Bool) (unsigned : String) :
    (Script.ofList (signed negative unsigned)).chars style =
      (if negative then ['-'] else []) ++ unsigned.toList := by
  rw [Script.chars_ofList]
  cases negative <;> simp [signed, Lexeme.text]

theorem calm_signed {negative : Bool} {unsigned : String}
    (mild : Text.Calm ('-' :: unsigned.toList)) :
    (Script.ofList (signed negative unsigned)).Calm style := by
  unfold Script.Calm
  rw [chars_signed]
  cases negative with
  | true => exact mild
  | false => exact mild.tail

theorem mild_signed {negative : Bool} {unsigned : String}
    (mild : Text.Calm ('-' :: unsigned.toList))
    (signless : negative = false) : (Script.ofList (signed negative unsigned)).Mild style := by
  subst signless
  unfold Script.Mild
  rw [chars_signed]
  exact mild

theorem chars_decimal (text : String) :
    (Script.ofList (literalLexemes (.decimal text))).chars style = text.toList := by
  rw [literalLexemes]
  split
  · rename_i rest opens
    rw [chars_signed, opens]
    simp
  · rw [chars_signed]
    simp

theorem mild_digits (n : Nat) : Text.Calm ('-' :: (toString n).toList) := by
  have own : (toString n).toList = Nat.toDigits 10 n := Nat.toList_repr
  rw [own]
  exact Text.Calm.cons_of_notMem (notMem_toDigits n)

theorem mild_string {content : String} (absent : '-' ∉ content.toList) :
    (Script.ofList (literalLexemes (.string content))).Mild style := by
  apply Script.mild_of_notMem
  rw [Script.chars_ofList]
  simpa [literalLexemes, Lexeme.text] using Text.notMem_quoted (by decide) (by decide) absent

theorem calm_literal {value : Literal} (tame : value.Tame) :
    (Script.ofList (literalLexemes value)).Calm style := by
  cases value with
  | null => exact (Script.mild_word (by decide)).calm
  | boolean value => cases value <;> exact (Script.mild_word (by decide)).calm
  | integer n => exact calm_signed (mild_digits _)
  | decimal text =>
    unfold Script.Calm
    rw [chars_decimal]
    exact Text.not_opensComment_iff.mp tame
  | double x => exact calm_signed x.mild_unsignedText
  | string content => exact (mild_string tame).calm

/-- A literal that is not known to begin with a sign may stand behind one. -/
theorem mild_literal {value : Literal} (tame : value.Tame)
    (signless : value.opensWithMinus = false) :
    (Script.ofList (literalLexemes value)).Mild style := by
  cases value with
  | null => exact Script.mild_word (by decide)
  | boolean value => cases value <;> exact Script.mild_word (by decide)
  | integer n => exact mild_signed (mild_digits _) signless
  | decimal text =>
    unfold Script.Mild
    rw [chars_decimal]
    refine List.isChain_cons.mpr ⟨?_, Text.not_opensComment_iff.mp tame⟩
    intro next opens _ sign
    simp [Literal.opensWithMinus, Option.mem_def.mp opens, sign] at signless
  | double x =>
    apply mild_signed x.mild_unsignedText
    rw [Binary64.hasMinus]
    simp [show x.isNegative = false from signless]
  | string content => exact mild_string tame

/-! ## Expressions -/

/-- The node is an identifier, a literal or a call, and the text that it brings
opens no comment. -/
def Node.Tame : Node → Prop
  | .identifier parts => ∀ part ∈ parts, '-' ∉ part.toList
  | .literal value => value.Tame
  | .call operator _ => operator.Tame
  | _ => False

instance : DecidablePred Node.Tame
  | .identifier parts => inferInstanceAs (Decidable (∀ part ∈ parts, '-' ∉ part.toList))
  | .literal value => inferInstanceAs (Decidable value.Tame)
  | .call operator _ => inferInstanceAs (Decidable operator.Tame)
  | .named .. | .select _ | .setOp .. | .join _ => inferInstanceAs (Decidable False)

/-- A call that begins with a sign is a negation, or stands in brackets at the
precedence of one. -/
theorem Node.calm_script {node : Node} (tame : ∀ part ∈ node.parts, part.Tame) :
    (∀ place, (node.script place).Calm style) ∧
      (node.opensWithMinus = false →
        (node.script (.operand ScalarOp.negate.precedence)).Mild style) := by
  induction node using Node.expression_induction with
  | identifier parts =>
    have mild : (Script.ofList [.identifier parts]).Mild style := by
      apply Script.mild_of_notMem
      rw [Script.chars_ofList]
      simpa [Lexeme.text] using style.notMem_identifier (tame _ (.head _))
    simp only [Node.script]
    exact ⟨fun _ => mild.calm, fun _ => mild⟩
  | literal value =>
    have own : value.Tame := tame _ (.head _)
    simp only [Node.script]
    exact ⟨fun _ => calm_literal own, mild_literal own⟩
  | call operator operands ih =>
    obtain ⟨own, below⟩ := (Node.forall_parts_iff _).mp tame
    have each : ∀ operand ∈ operandsOf operands, operand.Calm style := by
      rw [operandsOf_eq_map, List.forall_mem_map]
      intro operand member
      obtain ⟨anywhere, negated⟩ := ih operand member (below operand member)
      exact ⟨fun least => anywhere (.operand least), negated⟩
    have calm := calm_call each own
    simp only [Node.script]
    constructor
    · intro place
      split
      · exact calm.bracketed.calm
      · exact calm
    · intro signless
      split
      · exact calm.bracketed
      · rename_i tight
        apply mild_call each own (Nat.le_of_not_lt tight)
        intro negation
        subst negation
        cases signless
  | named | select | setOp | join => exact ((Node.forall_parts_iff _).mp tame).1.elim

/-- The mark of a script that was cut short begins with a blank. -/
theorem Script.Calm.text {s : Script} (calm : s.Calm style) :
    ¬ Text.OpensComment (s.text style) := by
  rw [Text.not_opensComment_iff, Script.text]
  split
  · exact calm
  · rw [String.toList_append]
    exact Text.Calm.append calm (by decide)

/-- An expression of tame texts opens no comment, in whatever place and style it is written:
neither by what was written of it, if it was cut short, nor with the mark that says so.  The
operators may have any number of operands, and decimals may even end in a minus sign. -/
theorem Node.text_opens_no_comment {node : Node} (tame : ∀ part ∈ node.parts, part.Tame)
    (place : Place) (style : QuoteStyle) :
    ¬ Text.OpensComment (textOf style (node.script place).lexemes) ∧
      ¬ Text.OpensComment ((node.script place).text style) := by
  have calm : (node.script place).Calm style := (Node.calm_script tame).1 place
  exact ⟨Text.not_opensComment_iff.mpr calm, calm.text⟩

/-- A sign in front of every kind of operand that may begin with one: a number, a zero, a decimal,
a difference of three operands and a negation of nothing, which cuts the text short. -/
def overdraft : Node :=
  .scalarCall .minus
    [.scalarCall .negate [.literal (.integer (-5))],
      .scalarCall .negate
        [.scalarCall .minus
          [.identifier ["due", "date"], .literal (.decimal "-1e-5"),
            .scalarCall .negate [.literal (.double ⟨0x8000000000000000⟩)],
            .scalarCall .negate [.scalarCall .negate []]]]]

theorem Node.text_opens_no_comment_overdraft :
    (∀ part ∈ overdraft.parts, part.Tame) ∧
      (overdraft.script .top).text .bracket =
        "-(-5) - -(-([due].[date], -1e-5, -(-0.0), -(- /* malformed */" ∧
      ¬ Text.OpensComment ((overdraft.script .top).text .bracket) := by
  have tame : ∀ part ∈ overdraft.parts, part.Tame := by decide
  exact ⟨tame, by decide +kernel, (Node.text_opens_no_comment tame .top .bracket).2⟩

end Sql

end Pushdown
