/-!
# UTF-8

`Utf8.encode` writes characters as bytes. `Utf8.read` reads bytes one at a time: a `State` says how
many continuation bytes are still owed and in which range the next one has to be. Bytes that begin
no character, and the longest beginnings of a character that is not completed, are read as `none`.
-/

namespace Wadl.Utf8

/-- The bytes of a code point. -/
def encodeChar (c : Char) : List UInt8 :=
  let n := c.toNat
  if n < 0x80 then [n.toUInt8]
  else if n < 0x800 then [(0xc0 + n / 64).toUInt8, (0x80 + n % 64).toUInt8]
  else if n < 0x10000 then
    [(0xe0 + n / 4096).toUInt8, (0x80 + n / 64 % 64).toUInt8, (0x80 + n % 64).toUInt8]
  else
    [(0xf0 + n / 262144).toUInt8, (0x80 + n / 4096 % 64).toUInt8, (0x80 + n / 64 % 64).toUInt8,
      (0x80 + n % 64).toUInt8]

/-- The bytes of a text. -/
def encode (cs : List Char) : List UInt8 := cs.flatMap encodeChar

/-- Where reading stands between two bytes. -/
inductive State where
  | start
  /-- `owed + 1` continuation bytes are missing, the next one from `low` to `high`. -/
  | within (value owed low high : Nat)

/-- What a byte read from between two characters completes or rejects, and the state after it. -/
def first (b : Nat) : List (Option Char) × State :=
  if b < 0x80 then ([some (Char.ofNat b)], .start)
  else if 0xc2 ≤ b ∧ b ≤ 0xdf then ([], .within (b - 0xc0) 0 0x80 0xbf)
  else if b = 0xe0 then ([], .within 0 1 0xa0 0xbf)
  else if b = 0xed then ([], .within 0xd 1 0x80 0x9f)
  else if 0xe1 ≤ b ∧ b ≤ 0xef then ([], .within (b - 0xe0) 1 0x80 0xbf)
  else if b = 0xf0 then ([], .within 0 2 0x90 0xbf)
  else if 0xf1 ≤ b ∧ b ≤ 0xf3 then ([], .within (b - 0xf0) 2 0x80 0xbf)
  else if b = 0xf4 then ([], .within 4 2 0x80 0x8f)
  else ([none], .start)

/-- One byte: what it completes or rejects, and the state after it. -/
def step : State → Nat → List (Option Char) × State
  | .start, b => first b
  | .within value owed low high, b =>
    if low ≤ b ∧ b ≤ high then
      let value := value * 64 + (b - 0x80)
      match owed with
      | 0 => ([some (Char.ofNat value)], .start)
      | n + 1 => ([], .within value n 0x80 0xbf)
    else
      let (out, next) := first b
      (none :: out, next)

/-- The characters of a list of bytes, read from a state; `none` for each malformed piece. -/
def readFrom : State → List UInt8 → List (Option Char)
  | .start, [] => []
  | .within .., [] => [none]
  | s, b :: bs =>
    let (out, next) := step s b.toNat
    out ++ readFrom next bs

/-- The characters of a list of bytes; `none` for each malformed piece. -/
def read (bytes : List UInt8) : List (Option Char) := readFrom .start bytes

end Wadl.Utf8
