import Wadl.Text.Blank
import Wadl.Text.CharClass

/-!
# Numerals

How a declared value is read as a number. Digits of every script count, single underscores may stand
between digits, and white space at the ends is skipped. `readInteger` reads whole numbers of at most
4300 digits; `readDecimal` takes a decimal numeral apart into sign, digits and power of ten.
-/

namespace Wadl.Numeral

/-- A character in the ASCII form that numerals are read in. -/
def asciiForm (c : Char) : Option Char :=
  if c.toNat < 127 then some c
  else if Text.isBlank c then some ' '
  else (Digit.value c).map fun v => Char.ofNat ('0'.toNat + v)

/-- ASCII white space that a numeral may be surrounded by. -/
def isSpace (c : Char) : Bool := c == ' ' || (9 ≤ c.toNat && c.toNat ≤ 13)

/-- The numeral of a text in ASCII characters and without white space at its ends. -/
def normalize (cs : List Char) : Option (List Char) :=
  (cs.mapM asciiForm).map (Text.trimList isSpace)

/-- Digits without the single underscores between them; none if anything else stands there. -/
def ungroup : List Char → Option (List Char)
  | [] => none
  | [c] => if CharClass.isAsciiDigit c then some [c] else none
  | c :: '_' :: cs => if CharClass.isAsciiDigit c then (ungroup cs).map (c :: ·) else none
  | c :: cs => if CharClass.isAsciiDigit c then (ungroup cs).map (c :: ·) else none

/-- The number that ASCII digits write. -/
def digitsValue (ds : List Char) : Nat :=
  ds.foldl (fun n d => n * 10 + (d.toNat - '0'.toNat)) 0

/-- The most digits a whole number may have. -/
def maxDigits : Nat := 4300

/-- Whether a whole number has few enough digits to be written. -/
def isWritable (n : Int) : Bool := (Nat.toDigits 10 n.natAbs).length ≤ maxDigits

/-- A sign, true for minus, and what follows it. -/
def splitSign : List Char → Bool × List Char
  | '-' :: cs => (true, cs)
  | '+' :: cs => (false, cs)
  | cs => (false, cs)

/-- The whole number of a list of characters. -/
def integerOf (cs : List Char) : Option Int := do
  let (negative, rest) := splitSign (← normalize cs)
  let ds ← ungroup rest
  if ds.length ≤ maxDigits then
    return if negative then -(digitsValue ds : Int) else digitsValue ds
  else none

/-- A numeral of the decimal kind. -/
inductive Decimal where
  | nan
  | infinite (negative : Bool)
  /-- The digits, read as a whole number, times a power of ten. -/
  | finite (negative : Bool) (digits : Nat) (exponent : Int)
  deriving DecidableEq, Repr

/-- The characters without their underscores, each of which has to stand between two digits. -/
def dropUnderscores : Bool → List Char → Option (List Char)
  | _, [] => some []
  | afterDigit, '_' :: cs =>
    match cs with
    | d :: _ => if afterDigit && CharClass.isAsciiDigit d then dropUnderscores false cs else none
    | [] => none
  | _, c :: cs => (dropUnderscores (CharClass.isAsciiDigit c) cs).map (c :: ·)

/-- The exponent after the letter `e`, zero if there is none. -/
def exponentOf : List Char → Option Int
  | [] => some 0
  | c :: cs =>
    if c = 'e' ∨ c = 'E' then
      let (negative, ds) := splitSign cs
      if ds.isEmpty || !ds.all CharClass.isAsciiDigit then none
      else some (if negative then -(digitsValue ds : Int) else digitsValue ds)
    else none

/-- A decimal numeral without a sign. -/
def unsignedDecimal (negative : Bool) (cs : List Char) : Option Decimal :=
  let whole := cs.takeWhile CharClass.isAsciiDigit
  let afterWhole := cs.dropWhile CharClass.isAsciiDigit
  let (part, rest) := match afterWhole with
    | '.' :: more =>
      (more.takeWhile CharClass.isAsciiDigit, more.dropWhile CharClass.isAsciiDigit)
    | _ => ([], afterWhole)
  if whole.isEmpty && part.isEmpty then none
  else (exponentOf rest).map fun e =>
    .finite negative (digitsValue (whole ++ part)) (e - part.length)

/-- ASCII letters in lower case. -/
def lowerAscii (c : Char) : Char :=
  if CharClass.isAsciiUpper c then Char.ofNat (c.toNat + 32) else c

/-- The decimal numeral of a list of characters. -/
def decimalOf (cs : List Char) : Option Decimal := do
  let (negative, rest) := splitSign (← dropUnderscores false (← normalize cs))
  let word := String.ofList (rest.map lowerAscii)
  if word = "nan" then return .nan
  else if word = "inf" ∨ word = "infinity" then return .infinite negative
  else unsignedDecimal negative rest

end Wadl.Numeral

namespace Wadl

/-- The whole number that a text writes. -/
def readInteger (s : String) : Option Int := Numeral.integerOf s.toList

/-- The decimal numeral that a text writes. -/
def readDecimal (s : String) : Option Numeral.Decimal := Numeral.decimalOf s.toList

end Wadl
