import Wadl.Text.CharClass

/-!
# Quoted texts and byte strings

How a text or a byte string is written as a literal of the generated source. `Quoted.body` escapes
the backslash, the quote, control characters and whatever `shown` does not let through; `quoted`
takes single quotes unless that would escape more than double ones; `doubleQuoted` exchanges them
for double ones wherever it can.
-/

namespace Wadl.Quoted

/-- A lower-case hexadecimal digit. -/
def hexDigit (n : Nat) : Char := Nat.digitChar (n % 16)

/-- `n` as `width` hexadecimal digits. -/
def hex : (width n : Nat) → List Char
  | 0, _ => []
  | w + 1, n => hex w (n / 16) ++ [hexDigit n]

/-- The escape for a code point, as short as its size allows. -/
def codeEscape (n : Nat) : List Char :=
  if n < 0x100 then '\\' :: 'x' :: hex 2 n
  else if n < 0x10000 then '\\' :: 'u' :: hex 4 n
  else '\\' :: 'U' :: hex 8 n

/-- One character between quotes. -/
def escapeChar (shown : Char → Bool) (quote c : Char) : List Char :=
  if c = quote ∨ c = '\\' then ['\\', c]
  else if c = '\t' then ['\\', 't']
  else if c = '\n' then ['\\', 'n']
  else if c = '\r' then ['\\', 'r']
  else if shown c then [c]
  else codeEscape c.toNat

/-- A text between quotes. -/
def body (shown : Char → Bool) (quote : Char) (cs : List Char) : List Char :=
  cs.flatMap (escapeChar shown quote)

/-- A text with its quotes. -/
def literal (shown : Char → Bool) (quote : Char) (cs : List Char) : List Char :=
  quote :: body shown quote cs ++ [quote]

/-- The quote that needs fewer escapes, the single one when it does not matter. -/
def preferredQuote (cs : List Char) : Char :=
  if cs.contains '\'' && !cs.contains '"' then '"' else '\''

/-- Characters in which single quotes are not escaped. -/
def bareQuotes : List Char → List Char
  | '\\' :: '\'' :: cs => '\'' :: bareQuotes cs
  | c :: cs => c :: bareQuotes cs
  | [] => []

/-- A text with its quotes in the generated client: single ones are exchanged for double ones,
between which single quotes need no escape, unless the text has double quotes. -/
def clientLiteral (shown : Char → Bool) (cs : List Char) : List Char :=
  let text := literal shown (preferredQuote cs) cs
  if text.head? = some '\'' && !cs.contains '"' then
    '"' :: bareQuotes (text.drop 1).dropLast ++ ['"']
  else text

/-- One byte between quotes. -/
def escapeByte (quote : Char) (b : UInt8) : List Char :=
  let c := Char.ofNat b.toNat
  if c = quote ∨ c = '\\' then ['\\', c]
  else if c = '\t' then ['\\', 't']
  else if c = '\n' then ['\\', 'n']
  else if c = '\r' then ['\\', 'r']
  else if 0x20 ≤ b ∧ b < 0x7f then [c]
  else '\\' :: 'x' :: hex 2 b.toNat

end Wadl.Quoted

namespace Wadl

/-- The literal of a text, in single quotes where it does not matter. -/
def quoted (s : String) : String :=
  let cs := s.toList
  String.ofList (Quoted.literal CharClass.isPrintable (Quoted.preferredQuote cs) cs)

/-- The literal of a text, in double quotes where it does not matter. -/
def doubleQuoted (s : String) : String :=
  String.ofList (Quoted.clientLiteral CharClass.isPrintable s.toList)

/-- The literal of a byte string. -/
def quotedBytes (bytes : List UInt8) : String :=
  let quote :=
    if bytes.contains 39 && !bytes.contains 34 then '"' else '\''
  String.ofList ('b' :: quote :: bytes.flatMap (Quoted.escapeByte quote) ++ [quote])

/-- A text as a message shows it, or the word for none. -/
def quotedOrNone : Option String → String
  | some s => quoted s
  | none => "None"

end Wadl
