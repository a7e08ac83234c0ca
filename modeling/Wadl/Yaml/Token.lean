import Wadl.Charset.Utf8
import Wadl.Text.Blank
import Wadl.Text.CharClass
import Wadl.Yaml.Scalar

/-!
# The tokens of a YAML document

`tokens?` cuts a text into tokens. Blocks are delimited by indentation, and a text is found to be a
key only when the colon after it is reached: where a key could begin is kept until then, and the
tokens for the key are put there.
-/

namespace Wadl.Yaml

/-- A unit of a document. -/
inductive Token where
  /-- The first number of the version that a document is written in. -/
  | version (major : Nat)
  /-- A short form for the beginning of tags. -/
  | handle (name start : String)
  | otherDirective
  | documentStart
  | documentEnd
  | blockSequence
  | blockMapping
  | blockEnd
  | flowSequence
  | flowSequenceEnd
  | flowMapping
  | flowMappingEnd
  | blockEntry
  | flowEntry
  | key
  | value
  | alias (name : String)
  | anchor (name : String)
  | tag (handle : Option String) (suffix : String)
  | scalar (text : String) (isPlain : Bool)
  deriving DecidableEq, Repr

/-! ## Names and tags -/

/-- Characters of names. -/
def isNameChar (c : Char) : Bool := CharClass.isAsciiAlphanumeric c || c == '-' || c == '_'

/-- A name, which is not empty. -/
def name? (c : Cursor) : Option (String × Cursor) :=
  match c.takeWhile isNameChar with
  | ([], _) => none
  | (cs, c) => some (String.ofList cs, c)

/-- The name of an anchor or an alias. -/
def anchorName? (c : Cursor) : Option (String × Cursor) := do
  let (name, c) ← name? c
  guard (isGap c.peek || "?:,]\x7d%@`".toList.contains c.peek)
  return (name, c)

/-- Characters of tags, but for the percent sign. -/
def isTagChar (c : Char) : Bool :=
  CharClass.isAsciiAlphanumeric c || "-;/?:@&=+$,_.!~*'()[]".toList.contains c

/-- The bytes that percent signs and digits after them stand for. -/
def tagBytes? : (fuel : Nat) → Cursor → Option (List UInt8 × Cursor)
  | 0, _ => none
  | n + 1, c =>
    if c.peek = '%' then do
      let a ← Digit.hexValue? (c.peekAt 1)
      let b ← Digit.hexValue? (c.peekAt 2)
      let (bytes, c) ← tagBytes? n (c.skip 3)
      return (UInt8.ofNat (16 * a + b) :: bytes, c)
    else some ([], c)

/-- The characters of a tag. -/
def tagChars? : (fuel : Nat) → Cursor → Option (List Char × Cursor)
  | 0, _ => none
  | n + 1, c => do
    let (run, c) := c.takeWhile isTagChar
    if c.peek = '%' then
      let (bytes, c) ← tagBytes? (c.rest.length + 1) c
      let decoded ← (Utf8.read bytes).mapM id
      let (more, c) ← tagChars? n c
      return (run ++ decoded ++ more, c)
    else return (run, c)

/-- The text of a tag, which is not empty. -/
def tagText? (c : Cursor) : Option (String × Cursor) := do
  let (cs, c) ← tagChars? (c.rest.length + 1) c
  guard (!cs.isEmpty)
  return (String.ofList cs, c)

/-- A short form for the beginning of tags: a name between exclamation marks, or one such mark. -/
def tagHandle? (c : Cursor) : Option (String × Cursor) := do
  guard (c.peek = '!')
  if c.peekAt 1 = ' ' then return ("!", c.next)
  else
    let (cs, after) := c.next.takeWhile isNameChar
    guard (after.peek = '!')
    return (String.ofList ('!' :: cs ++ ['!']), after.next)

/-- A tag: whole between angle brackets, alone, or with a short form at its beginning. -/
def tagToken? (c : Cursor) : Option (Token × Cursor) := do
  let (token, c) ←
    if c.peekAt 1 = '<' then do
      let (text, c) ← tagText? (c.skip 2)
      guard (c.peek = '>')
      pure (Token.tag none text, c.next)
    else if isGap (c.peekAt 1) then pure (Token.tag none "!", c.next)
    else do
      let word := c.next.rest.takeWhile (!isBlankOrEnd ·)
      let (handle, c) ← if word.contains '!' then tagHandle? c else some ("!", c.next)
      let (text, c) ← tagText? c
      pure (Token.tag (some handle) text, c)
  guard (isBlankOrEnd c.peek)
  return (token, c)

/-! ## Directives -/

/-- A number in digits, which is not empty. -/
def number? (c : Cursor) : Option (Nat × Cursor) :=
  match c.takeWhile CharClass.isAsciiDigit with
  | ([], _) => none
  | (ds, c) => some (ds.foldl (fun n d => 10 * n + (d.toNat - 48)) 0, c)

/-- What stands after the name of a directive. -/
def directiveBody? (name : String) (c : Cursor) : Option (Token × Cursor) :=
  let spaces (c : Cursor) := c.dropWhile (· == ' ')
  match name with
  | "YAML" => do
    let (major, c) ← number? (spaces c)
    guard (c.peek = '.')
    let (_, c) ← number? c.next
    guard (isBlankOrEnd c.peek)
    return (.version major, c)
  | "TAG" => do
    let (handle, c) ← tagHandle? (spaces c)
    guard (c.peek = ' ')
    let (start, c) ← tagText? (spaces c)
    guard (isBlankOrEnd c.peek)
    return (.handle handle start, c)
  | _ => some (.otherDirective, c.dropWhile (!isLineEnd ·))

/-- A directive, from its percent sign on. -/
def directive? (c : Cursor) : Option (Token × Cursor) := do
  let (name, c) ← name? c.next
  guard (isBlankOrEnd c.peek)
  let (token, c) ← directiveBody? name c
  return (token, ← c.skipLine?)

/-! ## Scanning -/

/-- A place where a key could begin. -/
structure KeyPlace where
  /-- The number of tokens before it. -/
  position : Nat
  /-- Whether nothing but a key may stand there. -/
  required : Bool
  index : Nat
  line : Nat
  column : Nat

/-- What is known between two tokens. -/
structure Scanner where
  cursor : Cursor
  /-- The number of brackets that are open. -/
  depth : Nat := 0
  /-- The indentation of the innermost block; `-1` outside of all. -/
  indent : Int := -1
  /-- The indentations of the blocks around it. -/
  indents : List Int := []
  /-- Whether a key may begin here. -/
  keyAllowed : Bool := true
  /-- Where the key could have begun, for each number of open brackets. -/
  keys : List (Nat × KeyPlace) := []
  /-- The tokens so far, the last first. -/
  done : List Token := []

namespace Scanner

/-- One more token. -/
def push (s : Scanner) (t : Token) : Scanner := { s with done := t :: s.done }

/-- A token before all but the first `position` ones. -/
def insert (s : Scanner) (position : Nat) (t : Token) : Scanner :=
  let later := s.done.length - position
  { s with done := s.done.take later ++ t :: s.done.drop later }

/-- Whether reading stands inside brackets. -/
def inFlow (s : Scanner) : Bool := s.depth != 0

/-- Forgets where a key could have begun; fails if one had to stand there. -/
def forgetKey (s : Scanner) : Option Scanner :=
  match s.keys.lookup s.depth with
  | some place =>
    if place.required then none
    else some { s with keys := s.keys.filter (·.1 != s.depth) }
  | none => some s

/-- Whether a key that could have begun at a place would be over more than one line, or too long. -/
def isStale (s : Scanner) (place : KeyPlace) : Bool :=
  place.line != s.cursor.line || 1024 < s.cursor.index - place.index

/-- Forgets the places where no key can have begun any more. -/
def dropStale (s : Scanner) : Option Scanner :=
  if s.keys.any fun (_, place) => s.isStale place && place.required then none
  else some { s with keys := s.keys.filter fun (_, place) => !s.isStale place }

/-- Remembers that a key could begin here. -/
def saveKey (s : Scanner) : Option Scanner :=
  if s.keyAllowed then do
    let s ← s.forgetKey
    let c := s.cursor
    let required := !s.inFlow && s.indent == (c.column : Int)
    return { s with
      keys := (s.depth, ⟨s.done.length, required, c.index, c.line, c.column⟩) :: s.keys }
  else some s

/-- Closes the blocks that are indented more than a column. -/
def closeBlocks (s : Scanner) (column : Int) : Scanner :=
  if s.inFlow then s
  else
    let rec close (indent : Int) (done : List Token) : List Int → Int × List Int × List Token
      | [] => (indent, [], done)
      | outer :: rest =>
        if column < indent then close outer (.blockEnd :: done) rest
        else (indent, outer :: rest, done)
    let (indent, indents, done) := close s.indent s.done s.indents
    { s with indent, indents, done }

/-- Opens a block at a column, if it is indented more than the innermost one; its token is put after
the first `position` ones. -/
def openBlock (s : Scanner) (column position : Nat) (t : Token) : Scanner :=
  if s.indent < (column : Int) then
    { s.insert position t with indent := column, indents := s.indent :: s.indents }
  else s

/-- Skips white space, comments and line ends, after which a key may begin in a block. -/
def skipGap : (fuel : Nat) → Scanner → Scanner
  | 0, s => s
  | n + 1, s =>
    let c := (s.cursor.dropWhile (· == ' ')).skipComment
    match c.lineBreak? with
    | some (_, c) => skipGap n { s with cursor := c, keyAllowed := s.keyAllowed || !s.inFlow }
    | none => { s with cursor := c }

/-- A token that ends all blocks. -/
def atTop (s : Scanner) (t : Token) (c : Cursor) : Option Scanner := do
  let s ← (s.closeBlocks (-1)).forgetKey
  return { s.push t with cursor := c, keyAllowed := false }

/-- An opening bracket. -/
def openFlow (s : Scanner) (t : Token) : Option Scanner := do
  let s ← s.saveKey
  return { s.push t with cursor := s.cursor.next, depth := s.depth + 1, keyAllowed := true }

/-- A closing bracket. -/
def closeFlow (s : Scanner) (t : Token) : Option Scanner := do
  let s ← s.forgetKey
  return { s.push t with cursor := s.cursor.next, depth := s.depth - 1, keyAllowed := false }

/-- A comma between items in brackets. -/
def flowEntry (s : Scanner) : Option Scanner := do
  let s ← s.forgetKey
  return { s.push .flowEntry with cursor := s.cursor.next, keyAllowed := true }

/-- The mark of an item of a sequence, or of a key that is not simple. -/
def blockMark (s : Scanner) (start mark : Token) (keyAllowed : Bool) : Option Scanner := do
  guard (s.inFlow || s.keyAllowed)
  let s := if s.inFlow then s else s.openBlock s.cursor.column s.done.length start
  let s ← s.forgetKey
  return { s.push mark with cursor := s.cursor.next, keyAllowed }

/-- The colon after a key. -/
def colon (s : Scanner) : Option Scanner :=
  match s.keys.lookup s.depth with
  | some place =>
    let s := { s with keys := s.keys.filter (·.1 != s.depth) }
    let s := s.insert place.position .key
    let s := if s.inFlow then s else s.openBlock place.column place.position .blockMapping
    some { s.push .value with cursor := s.cursor.next, keyAllowed := false }
  | none => s.blockMark .blockMapping .value (!s.inFlow)

/-- A token that may be a key, or stand before one. -/
def content (s : Scanner) (read : Cursor → Option (Token × Cursor)) : Option Scanner := do
  let s ← s.saveKey
  let (t, c) ← read s.cursor
  return { s.push t with cursor := c, keyAllowed := false }

/-- A block of text. -/
def block (s : Scanner) (folded : Bool) : Option Scanner := do
  let s ← s.forgetKey
  let (text, c) ← blockScalar folded s.indent s.cursor.next
  return { s.push (.scalar (String.ofList text) false) with cursor := c, keyAllowed := true }

/-- A plain text. -/
def plain (s : Scanner) : Option Scanner := do
  let s ← s.saveKey
  let (text, ended, c) :=
    plainScalar s.inFlow (s.indent + 1) (s.cursor.rest.length + 1) [] false s.cursor
  return { s.push (.scalar (String.ofList text) true) with cursor := c, keyAllowed := ended }

/-- A text in quotes, as a token. -/
def quotedToken (c : Cursor) : Option (Token × Cursor) := do
  let (text, after) ← quotedScalar c.peek (c.rest.length + 1) c.next
  return (.scalar (String.ofList text) false, after)

/-- Whether a plain text begins here. -/
def plainBegins (s : Scanner) : Bool :=
  let c := s.cursor
  let x := c.peek
  !(isGap x || "-?:,[]\x7b\x7d#&*!|>'\"%@`".toList.contains x) ||
    (!isGap (c.peekAt 1) && (x == '-' || (!s.inFlow && (x == '?' || x == ':'))))

/-- The next token. -/
def step (s : Scanner) : Option Scanner :=
  let c := s.cursor
  let x := c.peek
  let beforeGap := isGap (c.peekAt 1)
  if x = '%' && c.column = 0 then do
    let s ← (s.closeBlocks (-1)).forgetKey
    let (t, c) ← directive? c
    return { s.push t with cursor := c, keyAllowed := false }
  else if c.column = 0 && c.atDivider '-' then s.atTop .documentStart (c.skip 3)
  else if c.column = 0 && c.atDivider '.' then s.atTop .documentEnd (c.skip 3)
  else if x = '[' then s.openFlow .flowSequence
  else if x = '\x7b' then s.openFlow .flowMapping
  else if x = ']' then s.closeFlow .flowSequenceEnd
  else if x = '\x7d' then s.closeFlow .flowMappingEnd
  else if x = ',' then s.flowEntry
  else if x = '-' && beforeGap then s.blockMark .blockSequence .blockEntry true
  else if x = '?' && (s.inFlow || beforeGap) then s.blockMark .blockMapping .key (!s.inFlow)
  else if x = ':' && (s.inFlow || beforeGap) then s.colon
  else if x = '*' then
    s.content fun c => (anchorName? c.next).map fun (name, c) => (.alias name, c)
  else if x = '&' then
    s.content fun c => (anchorName? c.next).map fun (name, c) => (.anchor name, c)
  else if x = '!' then s.content tagToken?
  else if x = '|' && !s.inFlow then s.block false
  else if x = '>' && !s.inFlow then s.block true
  else if x = '\'' || x = '"' then s.content quotedToken
  else if s.plainBegins then s.plain
  else none

/-- All tokens. -/
def run : (fuel : Nat) → Scanner → Option (List Token)
  | 0, _ => none
  | n + 1, s => do
    let s ← (skipGap (s.cursor.rest.length + 1) s).dropStale
    let s := s.closeBlocks s.cursor.column
    if s.cursor.rest.isEmpty then
      let s ← (s.closeBlocks (-1)).forgetKey
      return s.done.reverse
    else run n (← s.step)

end Scanner

/-- Characters that a document may hold. -/
def isPrintable (c : Char) : Bool :=
  let n := c.toNat
  n == 9 || n == 10 || n == 13 || (0x20 ≤ n && n ≤ 0x7e) || n == 0x85 || (0xa0 ≤ n && n ≤ 0xfffd) ||
    0x10000 ≤ n

/-- The tokens of a document. -/
def tokens? (text : String) : Option (List Token) :=
  let cs := Text.unifyLineEnds text.toList
  if cs.all isPrintable then
    let c : Cursor := ⟨cs, 0, 0, 0⟩
    let c := if c.peek = byteOrderMark then c.next else c
    Scanner.run (2 * cs.length + 2) { cursor := c }
  else none

end Wadl.Yaml
