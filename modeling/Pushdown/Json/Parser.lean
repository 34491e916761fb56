import Pushdown.Json.Numeral

/-!
# Reading JSON text

A strict reader: blanks are space, tab, line feed and carriage return, no comma ends a list, no
number has a leading zero, no string holds a raw control character, and nothing follows the value.
-/

namespace Pushdown.Json.Parser

/-- The blanks that JSON allows between its tokens. -/
def isBlank (c : Char) : Bool := c == ' ' || c == '\t' || c == '\n' || c == '\r'

/-- The text from its first character that is no blank. -/
def skipBlanks (text : List Char) : List Char := text.dropWhile isBlank

/-! ## Numbers -/

/-- The digits at the head of a text, and what follows them. -/
def digits (text : List Char) : List Nat × List Char :=
  ((text.takeWhile Char.isDigit).map fun c => c.toNat - '0'.toNat, text.dropWhile Char.isDigit)

/-- The digits at the head of a text that has at least one. -/
def digits? (text : List Char) : Option (List Nat × List Char) :=
  match digits text with
  | ([], _) => none
  | found => some found

/-- The digits before the point: one zero, or digits that do not start with a zero. -/
def whole? (text : List Char) : Option (List Nat × List Char) :=
  match digits text with
  | ([], _) | (0 :: _ :: _, _) => none
  | found => some found

/-- The digits behind the point, if there is a point. -/
def fraction? : List Char → Option (Option (List Nat) × List Char)
  | '.' :: rest => (digits? rest).map fun (found, rest) => (some found, rest)
  | text => some (none, text)

/-- The sign and digits of the exponent, if there is one. -/
def exponent? : List Char → Option (Option (Bool × List Nat) × List Char)
  | mark :: rest =>
    if mark == 'e' || mark == 'E' then
      let (below, rest) :=
        match rest with
        | '+' :: rest => (false, rest)
        | '-' :: rest => (true, rest)
        | _ => (false, rest)
      (digits? rest).map fun (found, rest) => (some (below, found), rest)
    else some (none, mark :: rest)
  | [] => some (none, [])

/-- A number at the head of a text. -/
def number? (text : List Char) : Option (Json × List Char) := do
  let (negative, text) :=
    match text with
    | '-' :: rest => (true, rest)
    | _ => (false, text)
  let (whole, text) ← whole? text
  let (fraction, text) ← fraction? text
  let (exponent, text) ← exponent? text
  return (Numeral.value ⟨negative, whole, fraction, exponent⟩, text)

/-! ## Strings -/

/-- The value of a hexadecimal digit in either case. -/
def hexValue? (c : Char) : Option Nat :=
  if '0' ≤ c ∧ c ≤ '9' then some (c.toNat - '0'.toNat)
  else if 'a' ≤ c ∧ c ≤ 'f' then some (c.toNat - 'a'.toNat + 10)
  else if 'A' ≤ c ∧ c ≤ 'F' then some (c.toNat - 'A'.toNat + 10)
  else none

/-- The character that a one-letter escape stands for. -/
def unescape? : Char → Option Char
  | '"' => some '"'
  | '\\' => some '\\'
  | '/' => some '/'
  | 'b' => some '\x08'
  | 'f' => some '\x0c'
  | 'n' => some '\n'
  | 'r' => some '\r'
  | 't' => some '\t'
  | _ => none

/-- The code points of a string up to its closing quote; an escape may give a surrogate. -/
def codePoints? : List Char → Option (List Nat × List Char)
  | [] => none
  | '"' :: rest => some ([], rest)
  | '\\' :: 'u' :: a :: b :: c :: d :: rest => do
    let point := (((← hexValue? a) * 16 + (← hexValue? b)) * 16 + (← hexValue? c)) * 16 +
      (← hexValue? d)
    let (points, rest) ← codePoints? rest
    return (point :: points, rest)
  | '\\' :: c :: rest => do
    let char ← unescape? c
    let (points, rest) ← codePoints? rest
    return (char.toNat :: points, rest)
  | c :: rest => do
    if c.toNat < 0x20 || c == '\\' then none
    let (points, rest) ← codePoints? rest
    return (c.toNat :: points, rest)

/-- The characters of code points with surrogates joined in pairs; `none` for half a pair. -/
def joinSurrogates? : List Nat → Option (List Char)
  | [] => some []
  | high :: low :: rest =>
    if 0xd800 ≤ high ∧ high < 0xdc00 ∧ 0xdc00 ≤ low ∧ low < 0xe000 then
      (joinSurrogates? rest).map
        (Char.ofNat (0x10000 + (high - 0xd800) * 0x400 + (low - 0xdc00)) :: ·)
    else if 0xd800 ≤ high ∧ high < 0xe000 then none
    else (joinSurrogates? (low :: rest)).map (Char.ofNat high :: ·)
  | [point] => if 0xd800 ≤ point ∧ point < 0xe000 then none else some [Char.ofNat point]

/-- A string behind its opening quote, and what follows it. -/
def string? (text : List Char) : Option (Option String × List Char) := do
  let (points, rest) ← codePoints? text
  return ((joinSurrogates? points).map String.ofList, rest)

/-! ## Values -/

/-- An object; a name that has no value makes all of it unreadable. -/
def ofMembers (members : List (Option String × Json)) : Json :=
  match members.mapM fun (name, value) => name.map (·, value) with
  | some members => .object members
  | none => .unreadable

mutual

/-- A value at the head of a text, without blanks before it. -/
def value? : (fuel : Nat) → List Char → Option (Json × List Char)
  | 0, _ => none
  | fuel + 1, text =>
    match text with
    | 'n' :: 'u' :: 'l' :: 'l' :: rest => some (.null, rest)
    | 't' :: 'r' :: 'u' :: 'e' :: rest => some (.bool true, rest)
    | 'f' :: 'a' :: 'l' :: 's' :: 'e' :: rest => some (.bool false, rest)
    | '"' :: rest => do
      let (text, rest) ← string? rest
      return (text.elim .unreadable .string, rest)
    | '[' :: rest =>
      match skipBlanks rest with
      | ']' :: rest => some (.array [], rest)
      | rest => do
        let (items, rest) ← items? fuel rest
        return (.array items, rest)
    | '\x7b' :: rest =>
      match skipBlanks rest with
      | '\x7d' :: rest => some (.object [], rest)
      | rest => do
        let (members, rest) ← members? fuel rest
        return (ofMembers members, rest)
    | text => number? text

/-- The items of an array up to its closing bracket; at least one. -/
def items? : (fuel : Nat) → List Char → Option (List Json × List Char)
  | 0, _ => none
  | fuel + 1, text => do
    let (item, rest) ← value? fuel text
    match skipBlanks rest with
    | ',' :: rest =>
      let (items, rest) ← items? fuel (skipBlanks rest)
      return (item :: items, rest)
    | ']' :: rest => return ([item], rest)
    | _ => none

/-- The members of an object up to its closing bracket; at least one. -/
def members? : (fuel : Nat) → List Char → Option (List (Option String × Json) × List Char)
  | 0, _ => none
  | fuel + 1, text =>
    match text with
    | '"' :: text => do
      let (name, rest) ← string? text
      match skipBlanks rest with
      | ':' :: rest =>
        let (value, rest) ← value? fuel (skipBlanks rest)
        match skipBlanks rest with
        | ',' :: rest =>
          let (members, rest) ← members? fuel (skipBlanks rest)
          return ((name, value) :: members, rest)
        | '\x7d' :: rest => return ([(name, value)], rest)
        | _ => none
      | _ => none
    | _ => none

end

end Pushdown.Json.Parser

namespace Pushdown.Json

/-- The value of a JSON text.  Each step of the reader takes a character, so the length of the
text bounds the steps. -/
def parse? (text : String) : Option Json := do
  let chars := text.toList
  let (value, rest) ← Parser.value? (chars.length + 1) (Parser.skipBlanks chars)
  if (Parser.skipBlanks rest).isEmpty then return value else none

end Pushdown.Json
