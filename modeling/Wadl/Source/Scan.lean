import Wadl.Source.Token

/-!
# Reading tokens

A `Scan` takes tokens from the front or fails. `eat` takes one mark or keyword, `eat?` takes it if
it is there, and `name` takes a word that is no keyword.
-/

namespace Wadl.Source

/-- What takes tokens from the front, or fails. -/
abbrev Scan := StateT (List Token) Option

namespace Scan

/-- Whether a token is the given mark or keyword. -/
def matchesText (text : String) : Token → Bool
  | .word w => w == text
  | .mark m => m == text
  | _ => false

/-- The next token. -/
def next? : Scan (Option Token) := return (← get).head?

/-- Whether the next token is the given mark or keyword. -/
def sees (text : String) : Scan Bool := return (← get).head?.any (matchesText text)

/-- Whether the next two tokens are a name and a mark. -/
def seesNameThen (symbol : String) : Scan Bool := do
  match ← get with
  | .word w :: .mark m :: _ => return !keywords.contains w && m == symbol
  | _ => return false

/-- Takes the next token. -/
def skip : Scan Unit := modify (·.drop 1)

/-- Takes a mark or a keyword, if it is next. -/
def eat? (text : String) : Scan Bool := do
  match ← get with
  | t :: ts =>
    if matchesText text t then
      set ts
      return true
    else return false
  | [] => return false

/-- Takes a mark or a keyword. -/
def eat (text : String) : Scan Unit := do
  if ← eat? text then return () else failure

/-- Takes the first of some marks and keywords that is next, and says whether there is one. -/
def eatAny (texts : List String) : Scan Bool := do
  match ← get with
  | t :: ts =>
    if texts.any (matchesText · t) then
      set ts
      return true
    else return false
  | [] => return false

/-- Takes a token. -/
def token (t : Token) : Scan Unit := do
  match ← get with
  | u :: us => if u = t then set us else failure
  | [] => failure

/-- Takes a name. -/
def name : Scan Unit := do
  match ← get with
  | .word w :: ts => if keywords.contains w then failure else set ts
  | _ => failure

/-- Takes names with points between. -/
def dottedName : (fuel : Nat) → Scan Unit
  | 0 => failure
  | n + 1 => do
    name
    if ← eat? "." then dottedName n

/-- Takes texts that stand side by side, which are all of one kind. -/
def texts (isBytes : Bool) : (fuel : Nat) → Scan Unit
  | 0 => failure
  | n + 1 => do
    match ← next? with
    | some (.text b) =>
      if b = isBytes then
        skip
        texts isBytes n
      else failure
    | _ => return ()

end Scan

end Wadl.Source
