import Wadl.Text.Quoted

/-!
# SHA-1

The digest of bytes: they are padded to blocks of 64, each block is stretched to 80 words, and each
word turns the five words of the state. `Sha1.hexDigest` is the digest in hexadecimal digits.
-/

namespace Wadl.Sha1

/-- The five words that a block turns. -/
structure State where
  a : UInt32
  b : UInt32
  c : UInt32
  d : UInt32
  e : UInt32
  deriving DecidableEq, Repr

/-- A word turned to the left. -/
def rotate (w : UInt32) (n : UInt32) : UInt32 := (w <<< n) ||| (w >>> (32 - n))

/-- The bytes of a number below 2 ^ (8 * width), the highest first. -/
def bigEndian : (width n : Nat) → List UInt8
  | 0, _ => []
  | w + 1, n => bigEndian w (n / 256) ++ [UInt8.ofNat (n % 256)]

/-- Bytes with what fills the last block: a mark, zeros, and the count of the bits. -/
def padded (bytes : List UInt8) : List UInt8 :=
  let n := bytes.length
  bytes ++ 0x80 :: List.replicate ((119 - n % 64) % 64) 0 ++ bigEndian 8 (8 * n)

/-- The words of bytes, four bytes each. -/
def wordsOf : List UInt8 → List UInt32
  | a :: b :: c :: d :: rest =>
    ((a.toUInt32 <<< 24) ||| (b.toUInt32 <<< 16) ||| (c.toUInt32 <<< 8) ||| d.toUInt32) ::
      wordsOf rest
  | _ => []

/-- Words, the last first, with `n` more: each is made of four of the sixteen before it. -/
def stretch : (n : Nat) → List UInt32 → List UInt32
  | 0, ws => ws
  | n + 1, ws =>
    let word (i : Nat) := ws.getD i 0
    stretch n (rotate (word 2 ^^^ word 7 ^^^ word 13 ^^^ word 15) 1 :: ws)

/-- How a word of index `t` mixes three words of the state, and what is added. -/
def mix (t : Nat) (b c d : UInt32) : UInt32 × UInt32 :=
  if t < 20 then ((b &&& c) ||| ((~~~b) &&& d), 0x5a827999)
  else if t < 40 then (b ^^^ c ^^^ d, 0x6ed9eba1)
  else if t < 60 then ((b &&& c) ||| (b &&& d) ||| (c &&& d), 0x8f1bbcdc)
  else (b ^^^ c ^^^ d, 0xca62c1d6)

/-- The state turned by a word of index `t`. -/
def turn (s : State) (word : UInt32 × Nat) : State :=
  let (w, t) := word
  let (f, k) := mix t s.b s.c s.d
  ⟨rotate s.a 5 + f + s.e + k + w, s.a, rotate s.b 30, s.c, s.d⟩

/-- The state turned by a block of sixteen words. -/
def compress (s : State) (block : List UInt32) : State :=
  let r := ((stretch 64 block.reverse).reverse.zipIdx).foldl turn s
  ⟨s.a + r.a, s.b + r.b, s.c + r.c, s.d + r.d, s.e + r.e⟩

/-- Words in blocks of sixteen, at most `n` of them. -/
def blocks : (n : Nat) → List UInt32 → List (List UInt32)
  | 0, _ => []
  | n + 1, ws => if ws.isEmpty then [] else ws.take 16 :: blocks n (ws.drop 16)

/-- The state before the first block. -/
def initial : State := ⟨0x67452301, 0xefcdab89, 0x98badcfe, 0x10325476, 0xc3d2e1f0⟩

/-- The state after all blocks of some bytes. -/
def digest (bytes : List UInt8) : State :=
  let ws := wordsOf (padded bytes)
  (blocks ws.length ws).foldl compress initial

/-- The digest in hexadecimal digits. -/
def hexDigest (bytes : List UInt8) : String :=
  let s := digest bytes
  String.ofList ([s.a, s.b, s.c, s.d, s.e].flatMap fun w => Quoted.hex 8 w.toNat)

end Wadl.Sha1
