import Wadl.Text.CharClass
import Wadl.Yaml.Cursor

/-!
# Scalars

Texts in a YAML document: literal and folded blocks, texts in quotes, and plain ones. Each function
gives the characters of the text and the cursor after it, and fails where the text is not
well-formed.
-/

namespace Wadl.Yaml

/-! ## Blocks -/

/-- What becomes of the line ends after a block. -/
inductive Chomping where
  | clip
  | strip
  | keep
  deriving DecidableEq, Repr

/-- A sign that says what becomes of the line ends. -/
def chomping? : Char → Option Chomping
  | '+' => some .keep
  | '-' => some .strip
  | _ => none

/-- A digit that says how far a block is indented. -/
def increment? (c : Char) : Option Nat :=
  if '0' ≤ c && c ≤ '9' then some (c.toNat - 48) else none

/-- The signs after the mark of a block. -/
def blockSigns (c : Cursor) : Option (Chomping × Option Nat × Cursor) := do
  let (chomping, increment, c) :=
    match chomping? c.peek, increment? c.peek with
    | some ch, _ =>
      let c := c.next
      match increment? c.peek with
      | some n => (ch, some n, c.next)
      | none => (ch, none, c)
    | none, some n =>
      let c := c.next
      match chomping? c.peek with
      | some ch => (ch, some n, c.next)
      | none => (.clip, some n, c)
    | none, none => (Chomping.clip, none, c)
  guard (increment != some 0 && isBlankOrEnd c.peek)
  return (chomping, increment, c)

/-- The empty lines before a block whose indentation is not given, with the widest indentation. -/
def openingBreaks : (fuel : Nat) → Cursor → List Char × Nat × Cursor
  | 0, c => ([], 0, c)
  | n + 1, c =>
    match c.lineBreak? with
    | some (b, c) =>
      let (breaks, widest, c) := openingBreaks n c
      (b :: breaks, widest, c)
    | none =>
      if c.peek = ' ' then
        let (breaks, widest, after) := openingBreaks n c.next
        (breaks, max c.next.column widest, after)
      else ([], 0, c)

/-- The empty lines before the next line of a block. -/
def blockBreaks (indent : Nat) : (fuel : Nat) → Cursor → List Char × Cursor
  | 0, c => ([], c)
  | n + 1, c =>
    let c := c.skipIndent indent
    match c.lineBreak? with
    | some (b, c) =>
      let (breaks, c) := blockBreaks indent n c
      (b :: breaks, c)
    | none => ([], c)

/-- Whether a line of a block comes. -/
def atBlockLine (indent : Nat) (c : Cursor) : Bool := c.column == indent && c.peek != '\x00'

/-- The lines of a block, with the last line end and the empty lines after it. -/
def blockLines (folded : Bool) (indent : Nat) :
    (fuel : Nat) → (breaks : List Char) → Cursor → List Char × List Char × List Char × Cursor
  | 0, breaks, c => ([], [], breaks, c)
  | n + 1, breaks, c =>
    if atBlockLine indent c then
      let isFlush := c.peek != ' ' && c.peek != '\t'
      let (line, c) := c.takeWhile (!isLineEnd ·)
      let (ending, c) := match c.lineBreak? with
        | some (b, c) => ([b], c)
        | none => ([], c)
      let (after, c) := blockBreaks indent (c.rest.length + 1) c
      let start := breaks ++ line
      if atBlockLine indent c then
        let joint :=
          if folded && ending == ['\n'] && isFlush && c.peek != ' ' && c.peek != '\t' then
            if after.isEmpty then [' '] else []
          else ending
        let (more, last, trailing, c) := blockLines folded indent n after c
        (start ++ joint ++ more, last, trailing, c)
      else (start, ending, after, c)
    else ([], [], breaks, c)

/-- The block after its mark. `outer` is the indentation of the collection that it stands in. -/
def blockScalar (folded : Bool) (outer : Int) (c : Cursor) : Option (List Char × Cursor) := do
  let (chomping, increment, c) ← blockSigns c
  let c ← c.skipLine?
  let least := (max (outer + 1) 1).toNat
  let fuel := c.rest.length + 1
  let (indent, breaks, c) := match increment with
    | some n =>
      let indent := least + n - 1
      let (breaks, c) := blockBreaks indent fuel c
      (indent, breaks, c)
    | none =>
      let (breaks, widest, c) := openingBreaks fuel c
      (max least widest, breaks, c)
  let (text, last, trailing, c) := blockLines folded indent fuel breaks c
  let tail := match chomping with
    | .strip => []
    | .clip => last
    | .keep => last ++ trailing
  return (text ++ tail, c)

/-! ## Texts in quotes -/

/-- The character that a letter after a backslash stands for. -/
def escaped? (c : Char) : Option Char :=
  match c with
  | '0' => some '\x00'
  | 'a' => some '\x07'
  | 'b' => some '\x08'
  | 't' => some '\t'
  | '\t' => some '\t'
  | 'n' => some '\n'
  | 'v' => some '\x0b'
  | 'f' => some '\x0c'
  | 'r' => some '\r'
  | 'e' => some '\x1b'
  | ' ' => some ' '
  | '"' => some '"'
  | '\\' => some '\\'
  | '/' => some '/'
  | 'N' => some (Char.ofNat 0x85)
  | '_' => some (Char.ofNat 0xa0)
  | 'L' => some (Char.ofNat 0x2028)
  | 'P' => some (Char.ofNat 0x2029)
  | _ => none

/-- The number of hexadecimal digits that follow a letter after a backslash. -/
def escapeWidth? (c : Char) : Option Nat :=
  match c with
  | 'x' => some 2
  | 'u' => some 4
  | 'U' => some 8
  | _ => none

/-- The character with a number in hexadecimal digits. -/
def codeChar? (digits : List Char) : Option Char := do
  let values ← digits.mapM Digit.hexValue?
  let n := values.foldl (fun n v => 16 * n + v) 0
  if n.isValidChar then some (Char.ofNat n) else none

/-- The empty lines inside a text in quotes; no document may end there. -/
def quotedBreaks : (fuel : Nat) → Cursor → Option (List Char × Cursor)
  | 0, _ => none
  | n + 1, c =>
    if c.atDocument then none
    else
      let c := c.dropWhile fun x => x == ' ' || x == '\t'
      match c.lineBreak? with
      | some (b, c) => do
        let (breaks, c) ← quotedBreaks n c
        return (b :: breaks, c)
      | none => some ([], c)

/-- What a line end with empty lines after it stands for. -/
def foldedBreak (b : Char) (breaks : List Char) : List Char :=
  (if b ≠ '\n' then [b] else if breaks.isEmpty then [' '] else []) ++ breaks

/-- A text in quotes, from after the opening quote on. -/
def quotedScalar (quote : Char) : (fuel : Nat) → Cursor → Option (List Char × Cursor)
  | 0, _ => none
  | n + 1, c => do
    let x := c.peek
    if x = '\x00' then none
    else if x = quote then
      if quote = '\'' && c.peekAt 1 = '\'' then
        let (text, c) ← quotedScalar quote n (c.skip 2)
        return ('\'' :: text, c)
      else return ([], c.next)
    else if x = '\\' && quote = '"' then
      let c := c.next
      let letter := c.peek
      match escaped? letter, escapeWidth? letter with
      | some y, _ =>
        let (text, c) ← quotedScalar quote n c.next
        return (y :: text, c)
      | none, some width =>
        let digits := c.next.rest.take width
        guard (digits.length = width)
        let y ← codeChar? digits
        let (text, c) ← quotedScalar quote n (c.next.skip width)
        return (y :: text, c)
      | none, none =>
        let (_, c) ← c.lineBreak?
        let (breaks, c) ← quotedBreaks (c.rest.length + 1) c
        let (text, c) ← quotedScalar quote n c
        return (breaks ++ text, c)
    else if x = ' ' || x = '\t' || isBreak x then
      let (spaces, c) := c.takeWhile fun x => x == ' ' || x == '\t'
      match c.lineBreak? with
      | some (b, c) =>
        let (breaks, c) ← quotedBreaks (c.rest.length + 1) c
        let (text, c) ← quotedScalar quote n c
        return (foldedBreak b breaks ++ text, c)
      | none =>
        let (text, c) ← quotedScalar quote n c
        return (spaces ++ text, c)
    else
      let (text, c) ← quotedScalar quote n c.next
      return (x :: text, c)

/-! ## Plain texts -/

/-- Marks of collections in brackets. -/
def isFlowMark (c : Char) : Bool :=
  c == ',' || c == '[' || c == ']' || c == '\x7b' || c == '\x7d'

/-- The longest run of characters without white space that belongs to a plain text. -/
def plainRun (inFlow : Bool) : List Char → List Char
  | [] => []
  | x :: xs =>
    let after := xs.headD '\x00'
    if isGap x || (x == ':' && (isGap after || (inFlow && isFlowMark after))) ||
        (inFlow && (isFlowMark x || x == '?')) then []
    else x :: plainRun inFlow xs

/-- The empty lines inside a plain text; `none` for them if a document ends there. -/
def plainBreaks : (fuel : Nat) → Cursor → Option (List Char) × Cursor
  | 0, c => (none, c)
  | n + 1, c =>
    let c := c.dropWhile (· == ' ')
    match c.lineBreak? with
    | some (b, c) =>
      if c.atDocument then (none, c)
      else
        let (breaks, c) := plainBreaks n c
        (breaks.map (b :: ·), c)
    | none => (some [], c)

/-- What stands between two runs of a plain text, whether a line ended there, and the cursor after
it. -/
def plainGap (c : Cursor) : List Char × Bool × Cursor :=
  let (spaces, c) := c.takeWhile (· == ' ')
  match c.lineBreak? with
  | none => (spaces, false, c)
  | some (b, c) =>
    if c.atDocument then ([], true, c)
    else
      match plainBreaks (c.rest.length + 1) c with
      | (some breaks, c) => (foldedBreak b breaks, true, c)
      | (none, c) => ([], true, c)

/-- A plain text, whether a line ended after it, and the cursor after it. `gap` is what stands
before it if anything more of it comes, and `indent` is the least indentation of its lines. -/
def plainScalar (inFlow : Bool) (indent : Int) :
    (fuel : Nat) → (gap : List Char) → (afterLine : Bool) → Cursor → List Char × Bool × Cursor
  | 0, _, afterLine, c => ([], afterLine, c)
  | n + 1, gap, afterLine, c =>
    let run := if c.peek = '#' then [] else plainRun inFlow c.rest
    if run.isEmpty then ([], afterLine, c)
    else
      let c := c.skip run.length
      let (nextGap, ended, c) := plainGap c
      if nextGap.isEmpty || c.peek = '#' || (!inFlow && (c.column : Int) < indent) then
        (gap ++ run, ended, c)
      else
        let (more, ended, c) := plainScalar inFlow indent n nextGap ended c
        (gap ++ run ++ more, ended, c)

end Wadl.Yaml
