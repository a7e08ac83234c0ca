import Wadl.Naming.Scope
import Wadl.Text.Blank
import Wadl.Text.CharClass

/-!
# The tokens of Python source

`tokens?` cuts source into words, numbers, texts and marks, with the ends of its lines and the
changes of their indentation, as `Token`s. It fails where no token can be read, where brackets do
not match, and where an indentation closes no block that is open.
-/

namespace Wadl.Source

/-- A unit of source. -/
inductive Token where
  /-- A name or a keyword. -/
  | word (text : String)
  | number
  | text (isBytes : Bool)
  /-- An operator or a delimiter. -/
  | mark (symbol : String)
  | newline
  | indent
  | dedent
  deriving DecidableEq, Repr

/-! ## Lines -/

/-- Characters that end with a newline, if there are any. -/
def closeLastLine (cs : List Char) : List Char :=
  match cs.getLast? with
  | none => cs
  | some c => if c = '\n' then cs else cs ++ ['\n']

/-! ## Words -/

/-- Characters of words; outside ASCII, all that may turn out to be one. -/
def isWordChar (c : Char) : Bool := CharClass.isAsciiAlphanumeric c || c == '_' || 0x80 ≤ c.toNat

/-- Whether characters are a name. -/
def isName : List Char → Bool
  | [] => false
  | c :: cs => CharClass.isNameStart c && cs.all CharClass.isNamePart

/-! ## Texts -/

/-- What the letters before a quote say: whether the text is one of bytes, and whether a backslash
stands for itself. -/
def textKind? (letters : String) : Option (Bool × Bool) :=
  match letters.toList.map Char.toLower with
  | [] | ['u'] | ['f'] => some (false, false)
  | ['r'] | ['f', 'r'] | ['r', 'f'] => some (false, true)
  | ['b'] => some (true, false)
  | ['b', 'r'] | ['r', 'b'] => some (true, true)
  | _ => none

/-- The characters up to a closing quote, and those after it. `size` quotes in a row close the text,
and `run` of them were just read; a text between single quotes ends on its line. -/
def textBody (quote : Char) (size : Nat) :
    (run : Nat) → (acc : List Char) → List Char → Option (List Char × List Char)
  | _, _, [] => none
  | _, _, ['\\'] => none
  | run, acc, '\\' :: c :: cs =>
    if run = size then none else textBody quote size 0 (c :: '\\' :: acc) cs
  | run, acc, c :: cs =>
    if size = 1 && c = '\n' then none
    else if c = quote then
      if run + 1 = size then some ((acc.drop run).reverse, cs)
      else textBody quote size (run + 1) (c :: acc) cs
    else textBody quote size 0 (c :: acc) cs

/-- The text that begins with a quote, and what stands after it. -/
def textAfter (quote : Char) (cs : List Char) : Option (List Char × List Char) :=
  match cs with
  | c₁ :: c₂ :: rest =>
    if c₁ = quote then
      if c₂ = quote then textBody quote 3 0 [] rest else some ([], c₂ :: rest)
    else textBody quote 1 0 [] cs
  | _ => textBody quote 1 0 [] cs

/-- The number of hexadecimal digits that follow a letter after a backslash. -/
def escapeWidth? (isBytes : Bool) (c : Char) : Option Nat :=
  if c = 'x' then some 2
  else if isBytes then none
  else if c = 'u' then some 4
  else if c = 'U' then some 8
  else none

/-- Whether hexadecimal digits are the number of a character. -/
def isCodePoint (digits : List Char) : Bool :=
  digits.foldl (fun n c => 16 * n + (Digit.hexValue? c).getD 0) 0 ≤ 0x10ffff

/-- Whether the escapes in a text are complete. -/
def escapesOk (isBytes : Bool) : (fuel : Nat) → List Char → Bool
  | 0, _ => false
  | _, [] => true
  | n + 1, '\\' :: c :: cs =>
    match escapeWidth? isBytes c with
    | some width =>
      let digits := cs.take width
      digits.length = width && digits.all (Digit.hexValue? · |>.isSome) && isCodePoint digits &&
        escapesOk isBytes n (cs.drop width)
    | none =>
      if c = 'N' && !isBytes then
        let name := (cs.drop 1).takeWhile (· != '\x7d')
        cs.head? == some '\x7b' && !name.isEmpty && (cs.drop 1).contains '\x7d' &&
          escapesOk isBytes n (cs.drop (name.length + 2))
      else escapesOk isBytes n cs
  | n + 1, _ :: cs => escapesOk isBytes n cs

/-- The token for a text with the given letters before it and characters in it. -/
def textToken? (letters : String) (body : List Char) : Option Token := do
  let (isBytes, isRaw) ← textKind? letters
  guard (!isBytes || body.all (·.toNat < 0x80))
  guard (isRaw || escapesOk isBytes (body.length + 1) body)
  return .text isBytes

/-! ## Numbers -/

/-- What stands after a run of digits that single underscores may part; there is at least one digit,
and an underscore may stand before the first if `lead` says so. -/
def digitsAfter (isDigit : Char → Bool) (lead : Bool) : List Char → Option (List Char)
  | '_' :: c :: cs => if lead && isDigit c then more cs else none
  | c :: cs => if isDigit c then more cs else none
  | [] => none
where
  /-- What stands after the further digits. -/
  more : List Char → Option (List Char)
    | '_' :: c :: cs => if isDigit c then more cs else none
    | ['_'] => none
    | c :: cs => if isDigit c then more cs else some (c :: cs)
    | [] => some []

/-- Whether a number may end before these characters. A keyword may follow at once. -/
def numberMayEnd (cs : List Char) : Bool :=
  let words := ["and", "else", "for", "if", "in", "is", "or", "not"]
  words.any (fun w => w.toList.isPrefixOf cs) || !(cs.head?.any isWordChar)

/-- What stands after the sign of an imaginary number, if it is there, once the number is
complete. -/
def numberEnd (cs : List Char) : Option (List Char) :=
  match cs with
  | 'j' :: rest | 'J' :: rest => if numberMayEnd rest then some rest else none
  | _ => if numberMayEnd cs then some cs else none

/-- What stands after an exponent, if there is one. -/
def exponentAfter (cs : List Char) : Option (List Char) :=
  let isE (c : Char) := c == 'e' || c == 'E'
  match cs with
  | e :: s :: rest =>
    if isE e && (s == '+' || s == '-') then digitsAfter CharClass.isAsciiDigit false rest
    else if isE e && CharClass.isAsciiDigit s then
      digitsAfter CharClass.isAsciiDigit false (s :: rest)
    else some cs
  | _ => some cs

/-- What stands after the digits behind a point. -/
def fractionAfter (cs : List Char) : Option (List Char) := do
  let cs ←
    if cs.head?.any CharClass.isAsciiDigit then digitsAfter CharClass.isAsciiDigit false cs
    else some cs
  numberEnd (← exponentAfter cs)

/-- What stands after a number with a base of its own. -/
def basedAfter (isDigit : Char → Bool) (cs : List Char) : Option (List Char) := do
  let rest ← digitsAfter isDigit true cs
  guard (!(rest.head?.any CharClass.isAsciiDigit) && numberMayEnd rest)
  return rest

/-- The most digits that a whole number can have. -/
def digitLimit : Nat := 4300

/-- What stands after a decimal number. A whole number does not begin with a zero, unless it is
zero, and is not too long. -/
def decimalAfter (cs : List Char) : Option (List Char) := do
  let rest ← digitsAfter CharClass.isAsciiDigit false cs
  match rest with
  | '.' :: rest => fractionAfter rest
  | _ =>
    let after ← exponentAfter rest
    let isReal := after.length != rest.length || rest.head? == some 'j' || rest.head? == some 'J'
    let digits := (cs.take (cs.length - rest.length)).filter (· != '_')
    guard (isReal || (digits.length ≤ digitLimit &&
      (digits.head? != some '0' || digits.all (· == '0'))))
    numberEnd after

/-- What stands after a number that begins with a digit. -/
def numberAfter (cs : List Char) : Option (List Char) :=
  match cs with
  | '0' :: 'x' :: rest | '0' :: 'X' :: rest => basedAfter (Digit.hexValue? · |>.isSome) rest
  | '0' :: 'o' :: rest | '0' :: 'O' :: rest => basedAfter (fun c => '0' ≤ c && c ≤ '7') rest
  | '0' :: 'b' :: rest | '0' :: 'B' :: rest => basedAfter (fun c => c == '0' || c == '1') rest
  | _ => decimalAfter cs

/-! ## Marks -/

/-- All marks, the longer ones first. -/
def marks : List String :=
  ["**=", "//=", ">>=", "<<=", "...", "==", "!=", "<=", ">=", "->", ":=", "+=",
    "-=", "*=", "/=", "%=", "&=", "|=", "^=", "@=", "**", "//", "<<", ">>", "+", "-", "*", "/", "%",
    "&", "|", "^", "~", "@", "<", ">", "(", ")", "[", "]", "\x7b", "\x7d", ",", ":", ";", ".", "="]

/-- The longest mark at the beginning, and what stands after it. -/
def markAt? (cs : List Char) : Option (String × List Char) :=
  (marks.find? fun m => m.toList.isPrefixOf cs).map fun m => (m, cs.drop m.length)

/-- The opening bracket that a closing one needs. -/
def opening? (mark : String) : Option String :=
  match mark with
  | ")" => some "("
  | "]" => some "["
  | "\x7d" => some "\x7b"
  | _ => none

/-! ## Indentation -/

/-- How far a line is indented: with a tab up to the next multiple of eight, and with a tab for one.
Where the two disagree on an order, the indentation is refused. -/
structure Depth where
  wide : Nat
  narrow : Nat
  deriving DecidableEq, Repr

/-- The indentation of a line and what stands after it. `kept` is the indentation of a line that a
backslash has continued before anything else. -/
def indentation : Depth → (kept : Option Depth) → List Char → Option (Depth × List Char)
  | d, kept, ' ' :: cs => indentation ⟨d.wide + 1, d.narrow + 1⟩ kept cs
  | d, kept, '\t' :: cs => indentation ⟨(d.wide / 8 + 1) * 8, d.narrow + 1⟩ kept cs
  | _, kept, '\x0c' :: cs => indentation ⟨0, 0⟩ kept cs
  | _, _, ['\\', '\n'] => none
  | d, kept, '\\' :: '\n' :: cs =>
    indentation d (kept.or (if d.wide = 0 then none else some d)) cs
  | d, kept, cs => some (kept.getD d, cs)

/-- The blocks that are open, the innermost first. -/
abbrev Blocks := List Depth

/-- The most blocks that can be open. -/
def blockLimit : Nat := 100

/-- The blocks that stay open when a line has an indentation, and the number of those that are
closed. -/
def closeBlocks (d : Depth) : Blocks → Option (Blocks × Nat)
  | [] => if d.wide = 0 then (if d.narrow = 0 then some ([], 0) else none) else none
  | b :: outer =>
    if d.wide = b.wide then (if d.narrow = b.narrow then some (b :: outer, 0) else none)
    else if d.wide < b.wide then (closeBlocks d outer).map fun (bs, n) => (bs, n + 1)
    else none

/-- The tokens for the indentation of a line, and the blocks that are open in it. -/
def indentTokens (d : Depth) (blocks : Blocks) : Option (List Token × Blocks) :=
  let inner := blocks.head?.getD ⟨0, 0⟩
  if inner.wide < d.wide then
    if inner.narrow < d.narrow && blocks.length + 1 < blockLimit then some ([.indent], d :: blocks)
    else none
  else (closeBlocks d blocks).map fun (bs, n) => (List.replicate n .dedent, bs)

/-! ## Tokens -/

/-- What is known between two tokens. -/
structure Position where
  /-- The brackets that are open, the innermost first. -/
  brackets : List String := []
  blocks : Blocks := []
  /-- The tokens so far, the last first. -/
  done : List Token := []

/-- A position with one more token. -/
def Position.push (p : Position) (t : Token) : Position := { p with done := t :: p.done }

/-- The most brackets that can be open. -/
def bracketLimit : Nat := 200

/-- A position after a mark. -/
def Position.pushMark (p : Position) (m : String) : Option Position :=
  match opening? m with
  | some o =>
    match p.brackets with
    | b :: outer => if b = o then some { p.push (.mark m) with brackets := outer } else none
    | [] => none
  | none =>
    if m = "(" || m = "[" || m = "\x7b" then
      if p.brackets.length < bracketLimit then
        some { p.push (.mark m) with brackets := m :: p.brackets }
      else none
    else some (p.push (.mark m))

/-- All tokens, at the end of the source. -/
def Position.finish (p : Position) : Option (List Token) :=
  if p.brackets.isEmpty then
    some (p.done.reverse ++ List.replicate p.blocks.length .dedent)
  else none

/-- A token at the beginning, and what stands after it. -/
def tokenAt (cs : List Char) : Option (Token × List Char) :=
  match cs with
  | [] => none
  | c :: rest =>
    if CharClass.isAsciiDigit c then do return (.number, ← numberAfter cs)
    else if c = '.' && rest.head?.any CharClass.isAsciiDigit then do
      return (.number, ← fractionAfter rest)
    else if isWordChar c then do
      let word := cs.takeWhile isWordChar
      let after := cs.drop word.length
      match after with
      | q :: more =>
        if (q = '"' || q = '\'') && (textKind? (String.ofList word)).isSome then
          let (body, after) ← textAfter q more
          return (← textToken? (String.ofList word) body, after)
        else
          guard (isName word)
          return (.word (String.ofList word), after)
      | [] =>
        guard (isName word)
        return (.word (String.ofList word), [])
    else if c = '"' || c = '\'' then do
      let (body, after) ← textAfter c rest
      return (← textToken? "" body, after)
    else do
      let (m, after) ← markAt? cs
      return (.mark m, after)

/-- The tokens of the characters from a position on. `atStart` says whether a line begins, and
`blank` whether nothing but white space stands before on the line. -/
def scan : (fuel : Nat) → (atStart blank : Bool) → Position → List Char → Option (List Token)
  | 0, _, _, _, _ => none
  | _, _, _, p, [] => p.finish
  | n + 1, true, _, p, cs =>
    match indentation ⟨0, 0⟩ none cs with
    | none => none
    | some (d, rest) =>
      if rest.head? == some '#' || rest.head? == some '\n' then scan n false true p rest
      else if rest.isEmpty || !p.brackets.isEmpty then scan n false false p rest
      else
        match indentTokens d p.blocks with
        | none => none
        | some (ts, blocks) =>
          scan n false false { p with blocks, done := ts ++ p.done } rest
  | n + 1, false, blank, p, c :: cs =>
    if c = ' ' || c = '\t' || c = '\x0c' then scan n false blank p cs
    else if c = '#' then scan n false blank p (cs.dropWhile (· != '\n'))
    else if c = '\n' then
      if blank || !p.brackets.isEmpty then scan n true false p cs
      else scan n true false (p.push .newline) cs
    else if c = '\\' then
      match cs with
      | '\n' :: rest => if rest.isEmpty then none else scan n false blank p rest
      | _ => none
    else
      match tokenAt (c :: cs) with
      | none => none
      | some (.mark m, rest) =>
        match p.pushMark m with
        | some p => scan n false false p rest
        | none => none
      | some (t, rest) => scan n false false (p.push t) rest

/-- The tokens of source. -/
def tokens? (source : String) : Option (List Token) :=
  let cs := closeLastLine (Text.unifyLineEnds source.toList)
  if cs.contains '\x00' then none else scan (2 * cs.length + 2) true false {} cs

end Wadl.Source
