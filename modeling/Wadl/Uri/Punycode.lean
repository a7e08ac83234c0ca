import Wadl.Text.Sorting

/-!
# Punycode

Names of hosts are ASCII on the wire. `Punycode.encode` writes other characters of a label as their
insertions into the ASCII ones: in the order of their code points, each as the distance from the one
before it, in digits whose weights adapt to the distances.
-/

namespace Wadl.Punycode

/-- A digit of base 36. -/
def digit (d : Nat) : Char := Char.ofNat (if d < 26 then 97 + d else 22 + d)

/-- How often a distance is divided by 35 until it is small, times 36, and what is left. -/
def shrink (delta k : Nat) : Nat × Nat :=
  if 455 < delta then shrink (delta / 35) (k + 36) else (k, delta)
termination_by delta
decreasing_by omega

/-- The bias after a distance; `points` is the number of characters so far. -/
def adapt (delta points : Nat) (isFirst : Bool) : Nat :=
  let halved := if isFirst then delta / 700 else delta / 2
  let (k, rest) := shrink (halved + halved / points) 0
  k + 36 * rest / (rest + 38)

/-- The least value of a digit at a position that another digit follows. -/
def threshold (bias k : Nat) : Nat :=
  if k ≤ bias + 1 then 1 else if bias + 26 ≤ k then 26 else k - bias

theorem threshold_pos (bias k : Nat) : 1 ≤ threshold bias k := by
  unfold threshold
  split
  · omega
  · split <;> omega

/-- A distance in digits, the first of which is at position `k`. -/
def digits (bias k q : Nat) : List Char :=
  if threshold bias k ≤ q then
    digit (threshold bias k + (q - threshold bias k) % (36 - threshold bias k)) ::
      digits bias (k + 36) ((q - threshold bias k) / (36 - threshold bias k))
  else [digit q]
termination_by q
decreasing_by
  have h1 := threshold_pos bias k
  have h2 := Nat.div_le_self (q - threshold bias k) (36 - threshold bias k)
  omega

/-- Where encoding has come to. -/
structure State where
  delta : Nat
  bias : Nat
  /-- The number of characters that are written. -/
  written : Nat
  output : List Char

/-- Passes a character of the label while the code point `n` is inserted. -/
def pass (ascii n : Nat) (s : State) (c : Char) : State :=
  if c.toNat < n then { s with delta := s.delta + 1 }
  else if c.toNat = n then
    { delta := 0
      bias := adapt s.delta (s.written + 1) (s.written = ascii)
      written := s.written + 1
      output := s.output ++ digits s.bias 36 s.delta }
  else s

/-- Inserts the code points of a list, each of which is at least `n`. -/
def insertAll (label : List Char) (ascii : Nat) : (n : Nat) → State → List Nat → State
  | _, s, [] => s
  | n, s, m :: rest =>
    let s := { s with delta := s.delta + (m - n) * (s.written + 1) }
    let s := label.foldl (pass ascii m) s
    insertAll label ascii (m + 1) { s with delta := s.delta + 1 } rest

/-- A label in ASCII characters. -/
def encode (label : List Char) : List Char :=
  let ascii := label.filter (·.toNat < 0x80)
  let others := (sorted (· ≤ ·) ((label.filter (0x80 ≤ ·.toNat)).map Char.toNat)).eraseDups
  let start := if ascii.isEmpty then [] else ascii ++ ['-']
  (insertAll label ascii.length 0x80 ⟨0, 72, ascii.length, start⟩ others).output

end Wadl.Punycode
