/-!
# Where reading YAML stands

A `Cursor` is the rest of a text with the line and the column at which it begins. Beyond the end of
the text, the character there is the null character, which no text holds.
-/

namespace Wadl.Yaml

/-- Characters that end a line; carriage returns are gone by then. -/
def isBreak (c : Char) : Bool :=
  c == '\n' || c.toNat == 0x85 || c.toNat == 0x2028 || c.toNat == 0x2029

/-- Whether a line or the text ends. -/
def isLineEnd (c : Char) : Bool := c == '\x00' || isBreak c

/-- Whether a line or the text ends, or a space stands there. -/
def isBlankOrEnd (c : Char) : Bool := c == ' ' || isLineEnd c

/-- Whether a line or the text ends, or white space stands there. -/
def isGap (c : Char) : Bool := c == '\t' || isBlankOrEnd c

/-- The mark that may stand at the beginning of a text. -/
def byteOrderMark : Char := Char.ofNat 0xfeff

/-- Where reading stands. -/
structure Cursor where
  rest : List Char
  index : Nat := 0
  line : Nat := 0
  column : Nat := 0

namespace Cursor

/-- The character that comes. -/
def peek (c : Cursor) : Char := c.rest.headD '\x00'

/-- The character that comes after some others. -/
def peekAt (c : Cursor) (n : Nat) : Char := (c.rest.drop n).headD '\x00'

/-- The cursor after the next character. -/
def next (c : Cursor) : Cursor :=
  match c.rest with
  | [] => c
  | x :: xs =>
    if isBreak x then ⟨xs, c.index + 1, c.line + 1, 0⟩
    else ⟨xs, c.index + 1, c.line, if x = byteOrderMark then c.column else c.column + 1⟩

/-- The cursor after some characters. -/
def skip (c : Cursor) : Nat → Cursor
  | 0 => c
  | n + 1 => c.next.skip n

/-- The longest run of characters that satisfy `p`, and the cursor after it. -/
def takeWhile (c : Cursor) (p : Char → Bool) : List Char × Cursor :=
  let run := c.rest.takeWhile p
  (run, c.skip run.length)

/-- The cursor after the longest run of characters that satisfy `p`. -/
def dropWhile (c : Cursor) (p : Char → Bool) : Cursor := (c.takeWhile p).2

/-- The cursor after spaces, up to a column. -/
def skipIndent (c : Cursor) (column : Nat) : Cursor :=
  let spaces := (c.rest.take (column - c.column)).takeWhile (· == ' ')
  c.skip spaces.length

/-- The line end that comes, as it stands in a value, and the cursor after it. -/
def lineBreak? (c : Cursor) : Option (Char × Cursor) :=
  let x := c.peek
  if isBreak x then some (if x.toNat < 0x2000 then '\n' else x, c.next) else none

/-- The cursor after a comment, if one comes. -/
def skipComment (c : Cursor) : Cursor :=
  if c.peek = '#' then c.dropWhile (!isLineEnd ·) else c

/-- The cursor after the rest of a line that holds nothing but spaces and a comment. -/
def skipLine? (c : Cursor) : Option Cursor :=
  let c := (c.dropWhile (· == ' ')).skipComment
  if isLineEnd c.peek then some ((c.lineBreak?.map (·.2)).getD c) else none

/-- Whether three characters that divide documents stand here. -/
def atDivider (c : Cursor) (mark : Char) : Bool :=
  c.peek == mark && c.peekAt 1 == mark && c.peekAt 2 == mark && isGap (c.peekAt 3)

/-- Whether a document begins or ends here. -/
def atDocument (c : Cursor) : Bool := c.atDivider '-' || c.atDivider '.'

end Cursor

end Wadl.Yaml
