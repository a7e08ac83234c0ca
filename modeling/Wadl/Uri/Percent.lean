import Wadl.Charset.Basic
import Wadl.Text.Blank
import Wadl.Text.CharClass

/-!
# Percent encoding

A character that may not stand in a part of a URI is written as the bytes of its UTF-8 form, each as
a percent sign and two digits. In forms, a space is written as a plus sign, and pairs of a name and
a value are joined with `=` and `&`.
-/

namespace Wadl

namespace Percent

/-- Characters that stand for themselves everywhere. -/
def isUnreserved (c : Char) : Bool :=
  CharClass.isAsciiAlphanumeric c || c == '_' || c == '.' || c == '-' || c == '~'

/-- An upper-case hexadecimal digit. -/
def hexDigit (n : Nat) : Char := Char.ofNat (if n < 10 then 48 + n else 55 + n)

/-- The three characters for a byte. -/
def encodeByte (b : UInt8) : List Char := ['%', hexDigit (b.toNat / 16), hexDigit (b.toNat % 16)]

/-- Characters of which only those that `safe` allows stand for themselves. -/
def encodeList (safe : Char → Bool) (cs : List Char) : List Char :=
  cs.flatMap fun c => if safe c then [c] else (Utf8.encodeChar c).flatMap encodeByte

/-- The bytes that ASCII characters stand for. -/
def decodeBytes : List Char → List UInt8
  | '%' :: a :: b :: cs =>
    match Digit.hexValue? a, Digit.hexValue? b with
    | some x, some y => UInt8.ofNat (16 * x + y) :: decodeBytes cs
    | _, _ => 37 :: decodeBytes (a :: b :: cs)
  | c :: cs => UInt8.ofNat c.toNat :: decodeBytes cs
  | [] => []

/-- The characters that a run of ASCII characters stands for. -/
def decodeRun (cs : List Char) : List Char := (Charset.utf8.decode (decodeBytes cs)).toList

/-- The characters that others stand for. Each run of ASCII characters is decoded by itself; `run`
holds the present one, last character first. -/
def decodeFrom (run : List Char) : List Char → List Char
  | [] => decodeRun run.reverse
  | c :: cs =>
    if c.toNat < 0x80 then decodeFrom (c :: run) cs
    else decodeRun run.reverse ++ c :: decodeFrom [] cs

end Percent

/-- A text that can stand anywhere in a URI. -/
def percentEncoded (s : String) : String :=
  String.ofList (Percent.encodeList Percent.isUnreserved s.toList)

/-- A text that can stand anywhere in a path, with its slashes kept. -/
def pathEncoded (s : String) : String :=
  String.ofList (Percent.encodeList (fun c => Percent.isUnreserved c || c == '/') s.toList)

/-- The text that another stands for. -/
def percentDecoded (s : String) : String := String.ofList (Percent.decodeFrom [] s.toList)

/-! ## Forms -/

/-- A name or a value of a form. -/
def formText (s : String) : String :=
  String.ofList <|
    (Percent.encodeList (fun c => Percent.isUnreserved c || c == ' ') s.toList).map fun c =>
      if c = ' ' then '+' else c

/-- Pairs of names and values as a form. -/
def formEncoded (pairs : List (String × String)) : String :=
  "&".intercalate (pairs.map fun (name, value) => formText name ++ "=" ++ formText value)

/-- The text of a name or a value of a form. -/
def formDecodedText (s : String) : String :=
  percentDecoded (String.ofList (s.toList.map fun c => if c = '+' then ' ' else c))

/-- The pair that a piece of a form is; without a value only if `keepBlank` says so. -/
def formPair? (keepBlank : Bool) (piece : String) : Option (String × String) :=
  if piece.isEmpty then none
  else
    let (name, value) := cutAt '=' piece
    if value.isEmpty && !keepBlank then none
    else some (formDecodedText name, formDecodedText value)

/-- The pairs of names and values of a form. -/
def formPairs (keepBlank : Bool) (s : String) : List (String × String) :=
  (piecesAt '&' s).filterMap (formPair? keepBlank)

end Wadl
