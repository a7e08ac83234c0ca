/-!
# Base64

`Base64.encode` writes bytes with the usual alphabet and `Base64.decode?` reads them back. The end
has to be padded to a group of four; padding after a full group is let through.
-/

namespace Wadl.Base64

/-- The digit of a value below 64. -/
def digit (n : Nat) : Char :=
  if n < 26 then Char.ofNat (65 + n)
  else if n < 52 then Char.ofNat (97 + (n - 26))
  else if n < 62 then Char.ofNat (48 + (n - 52))
  else if n = 62 then '+'
  else '/'

/-- The value of a digit. -/
def value? (c : Char) : Option Nat :=
  if 'A' ≤ c ∧ c ≤ 'Z' then some (c.toNat - 65)
  else if 'a' ≤ c ∧ c ≤ 'z' then some (c.toNat - 97 + 26)
  else if '0' ≤ c ∧ c ≤ '9' then some (c.toNat - 48 + 52)
  else if c = '+' then some 62
  else if c = '/' then some 63
  else none

/-- The digits of bytes, padded. -/
def digits : List UInt8 → List Char
  | [] => []
  | [a] => [digit (a.toNat / 4), digit (a.toNat % 4 * 16), '=', '=']
  | [a, b] =>
    [digit (a.toNat / 4), digit (a.toNat % 4 * 16 + b.toNat / 16), digit (b.toNat % 16 * 4), '=']
  | a :: b :: c :: rest =>
    digit (a.toNat / 4) :: digit (a.toNat % 4 * 16 + b.toNat / 16) ::
      digit (b.toNat % 16 * 4 + c.toNat / 64) :: digit (c.toNat % 64) :: digits rest

/-- The text of bytes. -/
def encode (bytes : List UInt8) : String := String.ofList (digits bytes)

/-- The bytes of groups of four values; what is missing in the last group is cut off. -/
def bytesOf : List Nat → List UInt8
  | a :: b :: c :: d :: rest =>
    UInt8.ofNat (a * 4 + b / 16) :: UInt8.ofNat (b % 16 * 16 + c / 4) ::
      UInt8.ofNat (c % 4 * 64 + d) :: bytesOf rest
  | [a, b, c] => [UInt8.ofNat (a * 4 + b / 16), UInt8.ofNat (b % 16 * 16 + c / 4)]
  | [a, b] => [UInt8.ofNat (a * 4 + b / 16)]
  | _ => []

/-- Whether so many digits may be followed by so much padding. -/
def isPadded (digits padding : Nat) : Bool :=
  match digits % 4 with
  | 0 => 0 < digits || padding == 0
  | 2 => padding == 2
  | 3 => padding == 1
  | _ => false

/-- The bytes of a text. -/
def decode? (text : String) : Option (List UInt8) := do
  let cs := text.toList
  let data := cs.takeWhile (· != '=')
  let padding := cs.drop data.length
  let values ← data.mapM value?
  if padding.all (· == '=') && isPadded data.length padding.length then
    return bytesOf values
  else none

end Wadl.Base64
