import Wadl.Json.Basic
import Wadl.Number.Numeral
import Wadl.Text.CharClass

/-!
# Reading JSON

A text is cut into tokens by a machine that looks at one character at a time, and a value is built
of the tokens on a stack of open arrays and objects. Both run over their input once. A name that
stands in an object twice keeps its first position and gets its last value.
-/

namespace Wadl.Json

/-- Why a text is no JSON value. -/
inductive ReadError where
  | malformed
  /-- A whole number has more digits than are read. -/
  | longNumber
  /-- A text ends with half of a pair of units, or begins with the second half. -/
  | loneSurrogate
  deriving DecidableEq, Repr

/-! ## Tokens -/

/-- A piece of a JSON text. -/
inductive Token where
  /-- One of the marks `[`, `]`, `{`, `}`, `,` and `:`. -/
  | mark (c : Char)
  /-- A number or a name. -/
  | word (cs : List Char)
  /-- A text: its characters, and the units that escapes give. -/
  | text (units : List Nat)
  | bad
  deriving Repr

/-- What the machine is in the middle of; what it holds is reversed. -/
inductive Lexer where
  | idle
  | word (cs : List Char)
  | text (units : List Nat)
  | escape (units : List Nat)
  /-- Digits of an escaped unit are still missing. -/
  | unit (units : List Nat) (missing value : Nat)

/-- Whether a character may stand in a number or a name. -/
def isWordChar (c : Char) : Bool :=
  ('a' ≤ c && c ≤ 'z') || ('A' ≤ c && c ≤ 'Z') || ('0' ≤ c && c ≤ '9') || c == '+' || c == '-' ||
    c == '.'

/-- Whether a character separates tokens. -/
def isGap (c : Char) : Bool := c == ' ' || c == '\t' || c == '\n' || c == '\r'

/-- The character that a letter after a backslash means. -/
def escaped? (c : Char) : Option Char :=
  match c with
  | '"' => some '"'
  | '\\' => some '\\'
  | '/' => some '/'
  | 'b' => some '\x08'
  | 'f' => some '\x0c'
  | 'n' => some '\n'
  | 'r' => some '\r'
  | 't' => some '\t'
  | _ => none

/-- The machine at a character that begins a token or stands between tokens. -/
def begin (c : Char) : List Token × Lexer :=
  if isGap c then ([], .idle)
  else if c = '"' then ([], .text [])
  else if isWordChar c then ([], .word [c])
  else if c ∈ ['[', ']', '\x7b', '\x7d', ',', ':'] then ([.mark c], .idle)
  else ([.bad], .idle)

/-- One step of the machine. -/
def Lexer.step (c : Char) : Lexer → List Token × Lexer
  | .idle => begin c
  | .word cs =>
    if isWordChar c then ([], .word (c :: cs))
    else
      let (tokens, next) := begin c
      (.word cs.reverse :: tokens, next)
  | .text units =>
    if c = '"' then ([.text units.reverse], .idle)
    else if c = '\\' then ([], .escape units)
    else if c.toNat < 32 then ([.bad], .idle)
    else ([], .text (c.toNat :: units))
  | .escape units =>
    if c = 'u' then ([], .unit units 4 0)
    else
      match escaped? c with
      | some d => ([], .text (d.toNat :: units))
      | none => ([.bad], .idle)
  | .unit units missing value =>
    match Digit.hexValue? c with
    | some d =>
      if missing ≤ 1 then ([], .text ((16 * value + d) :: units))
      else ([], .unit units (missing - 1) (16 * value + d))
    | none => ([.bad], .idle)

/-- The tokens of a text. -/
def tokens : Lexer → List Char → List Token
  | .idle, [] => []
  | .word cs, [] => [.word cs.reverse]
  | _, [] => [.bad]
  | state, c :: cs =>
    let (found, next) := state.step c
    found ++ tokens next cs

/-! ## Scalars -/

/-- Whether characters are one or more digits. -/
def isDigits (cs : List Char) : Bool := !cs.isEmpty && cs.all fun c => '0' ≤ c && c ≤ '9'

/-- A word without an exponent, and the exponent if there is one. -/
def splitExponent (cs : List Char) : List Char × Option (List Char) :=
  let stem := cs.takeWhile fun c => c != 'e' && c != 'E'
  match cs.drop stem.length with
  | [] => (stem, none)
  | _ :: exponent => (stem, some exponent)

/-- A stem without a fraction, and the fraction if there is one. -/
def splitFraction (cs : List Char) : List Char × Option (List Char) :=
  let whole := cs.takeWhile (· != '.')
  match cs.drop whole.length with
  | [] => (whole, none)
  | _ :: fraction => (whole, some fraction)

/-- Whether characters are a whole number without a sign and without needless zeros. -/
def isWhole : List Char → Bool
  | ['0'] => true
  | '0' :: _ => false
  | cs => isDigits cs

/-- Whether characters are the exponent of a number. -/
def isExponent : List Char → Bool
  | '+' :: cs => isDigits cs
  | '-' :: cs => isDigits cs
  | cs => isDigits cs

/-- The number that a word is. -/
def numberOf (word : List Char) : Except ReadError Json :=
  let unsigned := match word with
    | '-' :: cs => cs
    | cs => cs
  let (stem, exponent) := splitExponent unsigned
  let (whole, fraction) := splitFraction stem
  if !isWhole whole || !(fraction.all isDigits) || !(exponent.all isExponent) then
    .error .malformed
  else if fraction.isNone && exponent.isNone then
    match Numeral.integerOf word with
    | some i => .ok (.int i)
    | none => .error .longNumber
  else
    match Numeral.decimalOf word with
    | some d => .ok (.float (Binary64.ofDecimal d))
    | none => .error .malformed

/-- The value that a word is. -/
def scalarOf (word : List Char) : Except ReadError Json :=
  if word = "null".toList then .ok .null
  else if word = "true".toList then .ok (.bool true)
  else if word = "false".toList then .ok (.bool false)
  else if word = "NaN".toList then .ok (.float .nan)
  else if word = "Infinity".toList then .ok (.float (.infinite false))
  else if word = "-Infinity".toList then .ok (.float (.infinite true))
  else numberOf word

/-- The characters that units are; two halves of a pair make one. -/
def charsOfUnits : List Nat → Except ReadError (List Char)
  | [] => .ok []
  | high :: low :: rest =>
    if 0xd800 ≤ high ∧ high < 0xdc00 ∧ 0xdc00 ≤ low ∧ low < 0xe000 then do
      return Char.ofNat (0x10000 + (high - 0xd800) * 0x400 + (low - 0xdc00)) ::
        (← charsOfUnits rest)
    else if 0xd800 ≤ high ∧ high < 0xe000 then .error .loneSurrogate
    else do return Char.ofNat high :: (← charsOfUnits (low :: rest))
  | [n] => if 0xd800 ≤ n ∧ n < 0xe000 then .error .loneSurrogate else .ok [Char.ofNat n]

/-- The text that units are. -/
def textOf (units : List Nat) : Except ReadError String := String.ofList <$> charsOfUnits units

/-! ## Values -/

/-- An array or an object that is still open; the items of an array are reversed. -/
inductive Frame where
  | arr (items : List Json)
  | obj (members : List (String × Json)) (name : String)

/-- What may come next. -/
inductive Expecting where
  /-- A value; after an opening bracket, also the closing one. -/
  | value (first : Bool)
  /-- A name; after an opening brace, also the closing one. -/
  | name (members : List (String × Json)) (first : Bool)
  | colon (members : List (String × Json)) (name : String)
  /-- A comma or the end of the innermost open array or object. -/
  | more
  | done (value : Json)

/-- The state after a value: it goes into the innermost open array or object. -/
def settle (value : Json) : List Frame → Expecting × List Frame
  | [] => (.done value, [])
  | .arr items :: rest => (.more, .arr (value :: items) :: rest)
  | .obj members name :: rest => (.more, .obj (put members name value) name :: rest)

/-- The state after an opening mark, unless too many are open. -/
def openMark (maxDepth : Nat) (c : Char) (stack : List Frame) :
    Except ReadError (Expecting × List Frame) :=
  if maxDepth ≤ stack.length then .error .malformed
  else if c = '[' then .ok (.value true, .arr [] :: stack)
  else .ok (.name [] true, stack)

/-- One step of building a value. -/
def buildStep (maxDepth : Nat) (token : Token) :
    Expecting × List Frame → Except ReadError (Expecting × List Frame)
  | (.value first, stack) =>
    match token with
    | .word cs => do return settle (← scalarOf cs) stack
    | .text units => do return settle (.str (← textOf units)) stack
    | .mark '[' => openMark maxDepth '[' stack
    | .mark '\x7b' => openMark maxDepth '\x7b' stack
    | .mark ']' =>
      match first, stack with
      | true, .arr items :: rest => .ok (settle (.arr items.reverse) rest)
      | _, _ => .error .malformed
    | _ => .error .malformed
  | (.name members first, stack) =>
    match token with
    | .text units => do return (.colon members (← textOf units), stack)
    | .mark '\x7d' => if first then .ok (settle (.obj members) stack) else .error .malformed
    | _ => .error .malformed
  | (.colon members name, stack) =>
    match token with
    | .mark ':' => .ok (.value false, .obj members name :: stack)
    | _ => .error .malformed
  | (.more, stack) =>
    match token, stack with
    | .mark ',', .arr _ :: _ => .ok (.value false, stack)
    | .mark ',', .obj members _ :: rest => .ok (.name members false, rest)
    | .mark ']', .arr items :: rest => .ok (settle (.arr items.reverse) rest)
    | .mark '\x7d', .obj members _ :: rest => .ok (settle (.obj members) rest)
    | _, _ => .error .malformed
  | (.done _, _) => .error .malformed

/-- The value that tokens make. -/
def build (maxDepth : Nat) : Expecting × List Frame → List Token → Except ReadError Json
  | (.done value, _), [] => .ok value
  | _, [] => .error .malformed
  | state, token :: rest => do build maxDepth (← buildStep maxDepth token state) rest

/-- The value of a text in which no more than `maxDepth` arrays and objects are open at once. -/
def readNested (maxDepth : Nat) (text : String) : Except ReadError Json :=
  build maxDepth (.value false, []) (tokens .idle text.toList)

/-- The value of a text. -/
def read (text : String) : Except ReadError Json := readNested text.length text

end Wadl.Json
