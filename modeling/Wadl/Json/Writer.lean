import Wadl.Json.Basic
import Wadl.Text.Quoted

/-!
# Writing JSON

A `Style` says how values are laid out, whether characters outside ASCII are escaped, and what
stands for numbers that are not finite. `Json.write` writes a value in a style.
-/

namespace Wadl.Json

/-- How JSON is written. -/
structure Style where
  /-- The spaces that a level is indented by; without, all stands on one line. -/
  indent : Option Nat
  /-- The text between two items that stand on one line. -/
  itemGap : String
  /-- The text between a name and its value. -/
  memberGap : String
  escapesUnicode : Bool
  /-- Whether a number that is not finite is written by its name, and not as `null`. -/
  namesInfinite : Bool

/-- On one line, with spaces, in ASCII. -/
def Style.spaced : Style := ⟨none, ", ", ": ", true, true⟩

/-- On many lines, in ASCII. -/
def Style.indented : Style := ⟨some 2, ",", ": ", true, true⟩

/-- On one line, without spaces. -/
def Style.compact : Style := ⟨none, ",", ":", false, false⟩

/-- The escape of a 16-bit unit. -/
def unitEscape (n : Nat) : List Char := '\\' :: 'u' :: Quoted.hex 4 n

/-- The escape of a character by its UTF-16 units. -/
def unitsEscape (c : Char) : List Char :=
  let n := c.toNat
  if n < 0x10000 then unitEscape n
  else unitEscape (0xd800 + (n - 0x10000) / 0x400) ++ unitEscape (0xdc00 + (n - 0x10000) % 0x400)

/-- A character inside a JSON text. -/
def writeChar (escapesUnicode : Bool) (c : Char) : List Char :=
  if c = '"' then ['\\', '"']
  else if c = '\\' then ['\\', '\\']
  else if c = '\n' then ['\\', 'n']
  else if c = '\r' then ['\\', 'r']
  else if c = '\t' then ['\\', 't']
  else if c = '\x08' then ['\\', 'b']
  else if c = '\x0c' then ['\\', 'f']
  else if c.toNat < 32 then unitsEscape c
  else if escapesUnicode ∧ 126 < c.toNat then unitsEscape c
  else [c]

/-- A text with its quotes. -/
def writeText (escapesUnicode : Bool) (s : String) : String :=
  "\"" ++ String.ofList (s.toList.flatMap (writeChar escapesUnicode)) ++ "\""

/-- A number. -/
def writeFloat (style : Style) (x : Binary64) : String :=
  match x with
  | .nan => if style.namesInfinite then "NaN" else "null"
  | .infinite negative =>
    if style.namesInfinite then if negative then "-Infinity" else "Infinity" else "null"
  | x => x.text

/-- The start of a line at a depth; nothing if all stands on one line. -/
def Style.lineStart (style : Style) (depth : Nat) : String :=
  match style.indent with
  | some n => "\n" ++ String.ofList (List.replicate (n * depth) ' ')
  | none => ""

mutual

/-- A value at a depth. -/
def writeAt (style : Style) (depth : Nat) : Json → String
  | .null => "null"
  | .bool b => if b then "true" else "false"
  | .int i => toString i
  | .float x => writeFloat style x
  | .str s => writeText style.escapesUnicode s
  | .arr [] => "[]"
  | .arr (x :: xs) =>
    "[" ++ style.lineStart (depth + 1) ++ writeAt style (depth + 1) x ++
      writeItems style (depth + 1) xs ++ style.lineStart depth ++ "]"
  | .obj [] => "\x7b\x7d"
  | .obj ((name, value) :: rest) =>
    "\x7b" ++ style.lineStart (depth + 1) ++ writeText style.escapesUnicode name ++
      style.memberGap ++ writeAt style (depth + 1) value ++ writeMembers style (depth + 1) rest ++
      style.lineStart depth ++ "\x7d"

/-- The items after the first one. -/
def writeItems (style : Style) (depth : Nat) : List Json → String
  | [] => ""
  | x :: xs =>
    style.itemGap ++ style.lineStart depth ++ writeAt style depth x ++ writeItems style depth xs

/-- The members after the first one. -/
def writeMembers (style : Style) (depth : Nat) : List (String × Json) → String
  | [] => ""
  | (name, value) :: rest =>
    style.itemGap ++ style.lineStart depth ++ writeText style.escapesUnicode name ++
      style.memberGap ++ writeAt style depth value ++ writeMembers style depth rest

end

/-- A value as text. -/
def write (style : Style) (value : Json) : String := writeAt style 0 value

end Wadl.Json
