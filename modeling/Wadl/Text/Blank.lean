/-!
# White space, words and lines

White space is what Unicode calls so, together with the four ASCII separators; a line may end with
any of ten characters or with a carriage return and a newline. `words` cuts a text at its white
space, `trim` removes it at both ends, and `lines` cuts at line ends.
-/

namespace Wadl.Text

/-- Characters that separate words. -/
def isBlank (c : Char) : Bool :=
  let n := c.toNat
  (9 ≤ n && n ≤ 13) || (28 ≤ n && n ≤ 32) || n == 0x85 || n == 0xa0 || n == 0x1680 ||
    (0x2000 ≤ n && n ≤ 0x200a) || n == 0x2028 || n == 0x2029 || n == 0x202f || n == 0x205f ||
    n == 0x3000

/-- Characters that end a line. -/
def isLineEnd (c : Char) : Bool :=
  let n := c.toNat
  (10 ≤ n && n ≤ 13) || (28 ≤ n && n ≤ 30) || n == 0x85 || n == 0x2028 || n == 0x2029

/-- The pieces between the characters that satisfy `p`, empty ones included. -/
def pieces (p : Char → Bool) : List Char → List (List Char)
  | [] => [[]]
  | c :: cs =>
    if p c then [] :: pieces p cs
    else match pieces p cs with
      | [] => [[c]]
      | w :: ws => (c :: w) :: ws

/-- The maximal runs of characters that do not satisfy `p`. -/
def runs (p : Char → Bool) (cs : List Char) : List (List Char) :=
  (pieces p cs).filter fun w => !w.isEmpty

/-- A list without its longest tail of elements that satisfy `p`. -/
def dropEndWhile (p : Char → Bool) (cs : List Char) : List Char :=
  (cs.reverse.dropWhile p).reverse

/-- A list without the elements at both ends that satisfy `p`. -/
def trimList (p : Char → Bool) (cs : List Char) : List Char :=
  dropEndWhile p (cs.dropWhile p)

/-- The lines of a text, without their ends. -/
def lineList : List Char → List (List Char)
  | [] => []
  | '\r' :: '\n' :: cs => [] :: lineList cs
  | c :: cs =>
    if isLineEnd c then [] :: lineList cs
    else match lineList cs with
      | [] => [[c]]
      | l :: ls => (c :: l) :: ls

/-- Characters in which every line ends with a newline. -/
def unifyLineEnds : List Char → List Char
  | [] => []
  | '\r' :: '\n' :: cs => '\n' :: unifyLineEnds cs
  | '\r' :: cs => '\n' :: unifyLineEnds cs
  | c :: cs => c :: unifyLineEnds cs

end Wadl.Text

namespace Wadl

/-- The words of a text: its maximal runs without white space. -/
def wordsOf (s : String) : List String :=
  (Text.runs Text.isBlank s.toList).map String.ofList

/-- A text without white space at its ends. -/
def trimmed (s : String) : String :=
  String.ofList (Text.trimList Text.isBlank s.toList)

/-- The lines of a text, without their ends. -/
def linesOf (s : String) : List String :=
  (Text.lineList s.toList).map String.ofList

/-- The pieces of a text between the occurrences of one character. -/
def piecesAt (sep : Char) (s : String) : List String :=
  (Text.pieces (· == sep) s.toList).map String.ofList

/-- What stands before and after the first occurrence of a character; all and nothing without
one. -/
def cutAt (sep : Char) (s : String) : String × String :=
  let cs := s.toList
  (String.ofList (cs.takeWhile (· != sep)), String.ofList ((cs.dropWhile (· != sep)).drop 1))

end Wadl
