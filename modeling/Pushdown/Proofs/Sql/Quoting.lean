import Pushdown.Sql.Lexeme

/-!
# Quoted text cannot escape its quotes

`Text.scan` reads quoted text off the start of a text: after the opening mark, a closing mark that
is doubled is a character of the content, and the first one that is not ends it.  The scanner
looks one character ahead and knows nothing of who wrote the text.

What it gives is exactly what was quoted, whatever marks the content holds and whatever follows,
as long as that does not go on with a closing mark (`Text.scan_eq_some_iff`).  So quoted texts may
be written one behind the other: an identifier is its parts in quotes with points between them,
and no two lists of parts look the same (`QuoteStyle.identifier_append_inj`).
-/

namespace Pushdown

namespace Text

/-- The content up to the first closing mark that is not doubled, and what is behind that mark. -/
def scanTo (closing : Char) : List Char → Option (List Char × List Char)
  | [] => none
  | [c] => if c = closing then some ([], []) else none
  | c :: d :: rest =>
    if c = closing then
      if d = closing then (scanTo closing rest).map (Prod.map (closing :: ·) id)
      else some ([], d :: rest)
    else (scanTo closing (d :: rest)).map (Prod.map (c :: ·) id)

/-- Reads a quoted text: its content, and what follows it. -/
def scan (opening closing : Char) (text : String) : Option (String × String) :=
  match text.toList with
  | [] => none
  | c :: rest =>
    if c = opening then (scanTo closing rest).map (Prod.map String.ofList String.ofList) else none

variable {opening closing : Char}

/-- The scanner undoes the doubling of marks. -/
theorem scanTo_doubled (content : List Char) {rest : List Char}
    (ends : rest.head? ≠ some closing) :
    scanTo closing (doubled closing content ++ closing :: rest) = some (content, rest) := by
  induction content with
  | nil =>
    cases rest with
    | nil => simp [scanTo]
    | cons d rest =>
      have other : d ≠ closing := by simpa using ends
      simp [scanTo, other]
  | cons c content ih =>
    by_cases mark : c = closing
    · subst mark
      simp [doubled, scanTo, ih]
    · -- The scanner looks at the next character too: there is one, if only the closing mark.
      obtain ⟨d, tail, next⟩ :
          ∃ d tail, doubled closing content ++ closing :: rest = d :: tail := by
        cases doubled closing content with
        | nil => exact ⟨closing, rest, rfl⟩
        | cons d tail => exact ⟨d, tail ++ closing :: rest, rfl⟩
      rw [doubled, if_neg mark, List.cons_append, next, scanTo, if_neg mark, ← next, ih]
      rfl

/-- What the scanner reads was written by doubling. -/
theorem eq_doubled_of_scanTo {text content rest : List Char}
    (read : scanTo closing text = some (content, rest)) :
    text = doubled closing content ++ closing :: rest ∧ rest.head? ≠ some closing := by
  fun_induction scanTo closing text generalizing content rest with
  | case1 => cases read
  | case2 =>
    cases read
    simp
  | case3 => cases read
  | case4 text ih =>
    obtain ⟨⟨inner, after⟩, below, whole⟩ := Option.map_eq_some_iff.mp read
    cases whole
    obtain ⟨rfl, ends⟩ := ih below
    exact ⟨by simp [doubled], ends⟩
  | case5 d text other =>
    cases read
    exact ⟨rfl, by simpa using other⟩
  | case6 c d text other ih =>
    obtain ⟨⟨inner, after⟩, below, whole⟩ := Option.map_eq_some_iff.mp read
    cases whole
    obtain ⟨written, ends⟩ := ih below
    exact ⟨by simp [doubled, other, written], ends⟩

/-- The scanner reads a content and a rest exactly off the quoted content with that rest behind
it. -/
theorem scan_eq_some_iff {text content rest : String} :
    scan opening closing text = some (content, rest) ↔
      text = quoted opening closing content ++ rest ∧ rest.toList.head? ≠ some closing := by
  have chars : text = quoted opening closing content ++ rest ↔
      text.toList = opening :: (doubled closing content.toList ++ closing :: rest.toList) := by
    rw [← String.toList_inj]
    simp [quoted]
  rw [chars]
  constructor
  · intro read
    unfold scan at read
    split at read
    · cases read
    · rename_i c tail start
      split at read
      · rename_i opens
        obtain ⟨⟨inner, after⟩, below, whole⟩ := Option.map_eq_some_iff.mp read
        cases whole
        obtain ⟨written, ends⟩ := eq_doubled_of_scanTo below
        rw [start, opens, written]
        simpa using ends
      · cases read
  · rintro ⟨start, ends⟩
    simp [scan, start, scanTo_doubled content.toList ends]

/-- Where quoted text stops does not depend on what is in it. -/
theorem quoted_append_inj {content other rest after : String}
    (ends : rest.toList.head? ≠ some closing) (stops : after.toList.head? ≠ some closing)
    (same : quoted opening closing content ++ rest = quoted opening closing other ++ after) :
    content = other ∧ rest = after := by
  have first : scan opening closing (quoted opening closing content ++ rest) =
      some (content, rest) := scan_eq_some_iff.mpr ⟨rfl, ends⟩
  rw [scan_eq_some_iff.mpr ⟨same, stops⟩] at first
  cases first
  exact ⟨rfl, rfl⟩

end Text

namespace Sql

namespace QuoteStyle

variable {style : QuoteStyle} {opening closing : Char}

theorem exists_marks (quotes : style ≠ .none) :
    ∃ opening closing, style.marks? = some (opening, closing) := by
  cases style with
  | none => exact absurd rfl quotes
  | doubleQuote => exact ⟨_, _, rfl⟩
  | backtick => exact ⟨_, _, rfl⟩
  | bracket => exact ⟨_, _, rfl⟩

theorem quote_eq (marked : style.marks? = some (opening, closing)) (part : String) :
    style.quote part = Text.quoted opening closing part := by
  rw [quote, marked]

/-- A point between two parts is not taken for a mark. -/
theorem point_ne_closing (marked : style.marks? = some (opening, closing)) : '.' ≠ closing := by
  cases style <;> cases marked <;> decide

/-- The parts, each with a point in front. -/
def pointed (style : QuoteStyle) (parts : List String) : String :=
  String.join (parts.map fun part => "." ++ style.quote part)

theorem pointed_cons (part : String) (parts : List String) :
    style.pointed (part :: parts) = "." ++ (style.quote part ++ style.pointed parts) := by
  simp [pointed, String.append_assoc]

/-- An identifier is its parts behind points, without the first point. -/
theorem pointed_eq {parts : List String} (nonempty : parts ≠ []) :
    style.pointed parts = "." ++ style.identifier parts := by
  induction parts with
  | nil => exact absurd rfl nonempty
  | cons part parts ih =>
    cases parts with
    | nil => simp [identifier, pointed]
    | cons next parts =>
      have step : style.identifier (part :: next :: parts) =
          style.quote part ++ "." ++ style.identifier (next :: parts) := by
        simp [identifier, String.intercalate_cons_cons]
      rw [pointed_cons, ih (List.cons_ne_nil _ _), step]
      simp only [String.append_assoc]

/-- The text does not go on as an identifier: neither with the mark nor with a point. -/
structure Ends (closing : Char) (rest : String) : Prop where
  mark : rest.toList.head? ≠ some closing
  point : rest.toList.head? ≠ some '.'

theorem ends_empty (closing : Char) : Ends closing "" := ⟨by simp, by simp⟩

/-- What is behind a part is no closing mark. -/
theorem head?_pointed_ne (marked : style.marks? = some (opening, closing)) (parts : List String)
    {rest : String} (ends : Ends closing rest) :
    (style.pointed parts ++ rest).toList.head? ≠ some closing := by
  cases parts with
  | nil => simpa [pointed] using ends.mark
  | cons part parts => simpa [pointed_cons] using point_ne_closing marked

theorem pointed_append_inj (marked : style.marks? = some (opening, closing))
    {parts others : List String} {rest after : String} (ends : Ends closing rest)
    (stops : Ends closing after)
    (same : style.pointed parts ++ rest = style.pointed others ++ after) :
    parts = others ∧ rest = after := by
  induction parts generalizing others with
  | nil =>
    cases others with
    | nil => exact ⟨rfl, by simpa [pointed] using same⟩
    | cons other others =>
      have point : rest.toList.head? = some '.' := by
        have whole : rest = style.pointed (other :: others) ++ after := by
          simpa [pointed] using same
        simp [whole, pointed_cons]
      exact absurd point ends.point
  | cons part parts ih =>
    cases others with
    | nil =>
      have point : after.toList.head? = some '.' := by
        have whole : style.pointed (part :: parts) ++ rest = after := by
          simpa [pointed] using same
        simp [← whole, pointed_cons]
      exact absurd point stops.point
    | cons other others =>
      simp only [pointed_cons, quote_eq marked, String.append_assoc] at same
      have inner := Text.quoted_append_inj (head?_pointed_ne marked parts ends)
        (head?_pointed_ne marked others stops) ((String.append_right_inj _).mp same)
      obtain ⟨rfl, tails⟩ := inner
      obtain ⟨rfl, rests⟩ := ih tails
      exact ⟨rfl, rests⟩

/-- An identifier tells its parts, and where it ends. -/
theorem identifier_append_inj (marked : style.marks? = some (opening, closing))
    {parts others : List String} {rest after : String} (nonempty : parts ≠ [])
    (otherNonempty : others ≠ []) (ends : Ends closing rest) (stops : Ends closing after)
    (same : style.identifier parts ++ rest = style.identifier others ++ after) :
    parts = others ∧ rest = after := by
  refine pointed_append_inj marked ends stops ?_
  rw [pointed_eq nonempty, pointed_eq otherNonempty, String.append_assoc, same,
    String.append_assoc]

/-- The text of some parts is that of no other parts, and not empty. -/
theorem identifier_inj (marked : style.marks? = some (opening, closing))
    {parts others : List String} (nonempty : parts ≠ [])
    (same : style.identifier parts = style.identifier others) :
    parts = others := by
  cases others with
  | nil =>
    obtain ⟨part, parts, rfl⟩ := List.exists_cons_of_ne_nil nonempty
    have whole : style.quote part ++ style.pointed parts = "" := by
      rw [← String.append_right_inj ".", ← pointed_cons, pointed_eq nonempty, same]
      rfl
    have empty := (String.append_eq_empty_iff.mp whole).1
    simp [quote_eq marked, Text.quoted] at empty
  | cons other others =>
    refine (identifier_append_inj marked nonempty (List.cons_ne_nil other others)
      (ends_empty closing)
      (ends_empty closing) ?_).1
    rw [same]

end QuoteStyle

theorem textOf_string (style : QuoteStyle) (content : String) :
    textOf style (literalLexemes (.string content)) = Text.quoted '\'' '\'' content := by
  simp [textOf, literalLexemes, Lexeme.text]

/-- In every style that quotes, reading a quoted part with anything behind it that does not go on
with the closing mark gives the part and what is behind it, and nothing else reads so; and the
text of an identifier tells its parts.  String literals are read in the same way, in
every style. -/
theorem QuoteStyle.quotes_enclose (style : QuoteStyle) :
    (style ≠ .none → ∃ opening closing, style.marks? = some (opening, closing) ∧
      (∀ text part rest, Text.scan opening closing text = some (part, rest) ↔
        text = style.quote part ++ rest ∧ rest.toList.head? ≠ some closing) ∧
      ∀ parts others, parts ≠ [] → style.identifier parts = style.identifier others →
        parts = others) ∧
    (∀ text content rest, Text.scan '\'' '\'' text = some (content, rest) ↔
      text = textOf style (literalLexemes (.string content)) ++ rest ∧
        rest.toList.head? ≠ some '\'') ∧
    ∀ content other, textOf style (literalLexemes (.string content)) =
      textOf style (literalLexemes (.string other)) → content = other := by
  refine ⟨fun quotes => ?_, fun text content rest => ?_, fun content other same => ?_⟩
  · obtain ⟨opening, closing, marked⟩ := exists_marks quotes
    refine ⟨opening, closing, marked, fun text part rest => ?_, fun parts others => ?_⟩
    · rw [quote_eq marked]
      exact Text.scan_eq_some_iff
    · exact identifier_inj marked
  · rw [textOf_string]
    exact Text.scan_eq_some_iff
  · rw [textOf_string, textOf_string] at same
    have clear : "".toList.head? ≠ some '\'' := by simp
    exact (Text.quoted_append_inj clear clear (congrArg (· ++ "") same)).1

/-- Marks and points inside the parts, at their ends too, are told from those around them. -/
theorem QuoteStyle.quotes_enclose_marked :
    QuoteStyle.bracket.identifier ["a].[b", "]"] = "[a]].[b].[]]]" ∧
      (∀ others, "[a]].[b].[]]]" = QuoteStyle.bracket.identifier others →
        ["a].[b", "]"] = others) ∧
      Text.scan '[' ']' "[a]].[b].[]]]" = some ("a].[b", ".[]]]") ∧
      Text.scan '\'' '\'' "'''' AS x" = some ("'", " AS x") := by
  obtain ⟨identifiers, literals, _⟩ := QuoteStyle.quotes_enclose .bracket
  obtain ⟨opening, closing, marked, parts, unique⟩ := identifiers (by decide)
  cases marked
  have written : QuoteStyle.bracket.identifier ["a].[b", "]"] =
      "[a]].[b].[]]]" := by decide +kernel
  refine ⟨written, fun others same => ?_, ?_, ?_⟩
  · exact unique _ others (List.cons_ne_nil _ _) (written.trans same)
  · exact (parts _ _ _).mpr ⟨by decide +kernel, by decide⟩
  · exact (literals _ _ _).mpr ⟨by decide +kernel, by decide⟩

end Sql

end Pushdown
