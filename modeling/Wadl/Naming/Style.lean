import Wadl.Text.CharClass

/-!
# Words and styles of names

A name of a document is cut into words: at every character that is neither an ASCII letter nor a
digit, and where the case of the letters shows that a new word begins. `Words.split` marks the
latter places with a blank, in two passes over the text, and then takes the runs of letters and
digits.

The words of a text are joined to a name: `snake` with small letters and underscores, `camel` and
`pascal` with a capital at the start of words, `constant` with capitals and underscores. A name does
not begin with a digit.
-/

namespace Wadl.Words

/-! ## Words -/

open CharClass

/-- A text in which a blank parts the last of several capitals in a row from those before it, if a
small letter follows: it begins a word. `capitals` holds the capitals just met, last first. -/
def partCapitals (capitals : List Char) : List Char → List Char
  | [] => capitals.reverse
  | c :: cs =>
    if isAsciiUpper c then partCapitals (c :: capitals) cs
    else
      match capitals with
      | last :: before :: rest =>
        if isAsciiLower c then
          (before :: rest).reverse ++ ' ' :: last :: c :: partCapitals [] cs
        else capitals.reverse ++ c :: partCapitals [] cs
      | _ => capitals.reverse ++ c :: partCapitals [] cs

/-- Whether a capital after this character begins a word. -/
def endsWord (c : Char) : Bool := isAsciiLower c || Digit.isDigit c

/-- A text in which a blank parts a capital from a small letter or a digit before it. -/
def partHumps : List Char → List Char
  | a :: b :: cs =>
    if endsWord a && isAsciiUpper b then a :: ' ' :: b :: partHumps cs
    else a :: partHumps (b :: cs)
  | cs => cs

/-- The longest runs of ASCII letters and digits; `word` holds the run just met, last first. -/
def runs (word : List Char) : List Char → List (List Char)
  | [] => if word.isEmpty then [] else [word.reverse]
  | c :: cs =>
    if isAsciiAlphanumeric c then runs (c :: word) cs
    else if word.isEmpty then runs [] cs
    else word.reverse :: runs [] cs

/-- The words of a text, as lists of characters. -/
def split (cs : List Char) : List (List Char) := runs [] (partHumps (partCapitals [] cs))

end Wadl.Words

namespace Wadl

/-- The words of a text. -/
def splitWords (text : String) : List String := (Words.split text.toList).map String.ofList

/-! ## Styles -/

/-- How names of variables are written. -/
inductive NamingStyle where
  | snake
  | camel
  deriving DecidableEq, Repr

namespace Naming

open CharClass

/-- The small letter for a capital, any other character as it is. -/
def lowerChar (c : Char) : Char := if isAsciiUpper c then Char.ofNat (c.toNat + 32) else c

/-- The capital for a small letter, any other character as it is. -/
def upperChar (c : Char) : Char := if isAsciiLower c then Char.ofNat (c.toNat - 32) else c

/-- A word with small letters. -/
def lowerWord (w : List Char) : List Char := w.map lowerChar

/-- A word with capitals. -/
def upperWord (w : List Char) : List Char := w.map upperChar

/-- A word with a capital first and small letters after it. -/
def capitalized : List Char → List Char
  | [] => []
  | c :: cs => upperChar c :: lowerWord cs

/-- Words with underscores between them. -/
def joined (words : List (List Char)) : List Char := List.intercalate ['_'] words

/-- A name with `first` before it if it begins with a digit. -/
def lead (first : Char) : List Char → List Char
  | [] => []
  | c :: cs => if isAsciiDigit c then first :: c :: cs else c :: cs

/-- The words of a text in small letters, joined by underscores. -/
def snakeChars (cs : List Char) : List Char := lead 'n' (joined ((Words.split cs).map lowerWord))

/-- The words of a text, all but the first with a capital. -/
def camelChars (cs : List Char) : List Char :=
  match Words.split cs with
  | [] => []
  | w :: ws => lead 'n' (lowerWord w ++ (ws.map capitalized).flatten)

/-- The words of a text, each with a capital. -/
def pascalChars (cs : List Char) : List Char :=
  lead 'N' ((Words.split cs).map capitalized).flatten

/-- The words of a text in capitals, joined by underscores. -/
def constantChars (cs : List Char) : List Char :=
  let name := lead '_' (joined ((Words.split cs).map upperWord))
  if name.isEmpty then "EMPTY".toList else name

end Naming

/-- A name like `get_widget`. -/
def snake (text : String) : String := String.ofList (Naming.snakeChars text.toList)

/-- A name like `getWidget`. -/
def camel (text : String) : String := String.ofList (Naming.camelChars text.toList)

/-- A name like `GetWidget`. -/
def pascal (text : String) : String := String.ofList (Naming.pascalChars text.toList)

/-- A name like `GET_WIDGET`; `EMPTY` if there are no words. -/
def constant (text : String) : String := String.ofList (Naming.constantChars text.toList)

/-- A name of a variable in a style. -/
def NamingStyle.identifier : NamingStyle → String → String
  | snake, text => Wadl.snake text
  | camel, text => Wadl.camel text

end Wadl
