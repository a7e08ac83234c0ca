import Wadl.Text.Quoted

/-!
# Scopes of names

A `NameScope` holds the names that are taken, each with what it stands for. `claim` takes a name or
says who has it; `claimUnique` takes the name with the least number that makes it free.
-/

namespace Wadl

/-- A name that two things would have. -/
structure NameClash where
  name : String
  first : String
  second : String
  deriving DecidableEq, Repr

/-- The text of a clash. -/
def NameClash.message (c : NameClash) : String :=
  "name " ++ quoted c.name ++ " produced by both " ++ c.first ++ " and " ++ c.second

/-- The words that generated source cannot use as names, in the order of the alphabet. -/
def keywords : List String :=
  ["False", "None", "True", "and", "as", "assert", "async", "await", "break", "class", "continue",
    "def", "del", "elif", "else", "except", "finally", "for", "from", "global", "if", "import",
    "in", "is", "lambda", "nonlocal", "not", "or", "pass", "raise", "return", "try", "while",
    "with", "yield"]

/-- The words that no name of generated source may be. -/
def reservedWords : List String := keywords ++ ["self"]

/-- The names that are taken in one place. -/
structure NameScope where
  /-- What the scope is, for messages. -/
  label : String
  /-- Whether a reserved word gets an underscore, and is not refused. -/
  escapes : Bool := false
  reserved : List String := reservedWords
  /-- Each name with what it stands for. -/
  names : List (String × String) := []
  deriving Repr

namespace NameScope

/-- What a name stands for. -/
def holder? (s : NameScope) (name : String) : Option String := s.names.lookup name

/-- Whether a name is taken. -/
def contains (s : NameScope) (name : String) : Bool := (s.holder? name).isSome

/-- A scope with one more name; what it stood for is forgotten. -/
def reserve (s : NameScope) (name source : String) : NameScope :=
  { s with names := (name, source) :: s.names.filter (·.1 ≠ name) }

/-- A word that is no reserved word. -/
def escaped (s : NameScope) (name : String) : String :=
  if s.reserved.contains name then name ++ "_" else name

/-- Takes a name that is free and gives it back. -/
def take (s : NameScope) (name source : String) : Except NameClash (String × NameScope) :=
  match s.holder? name with
  | some first => .error ⟨name, first, source⟩
  | none => .ok (name, s.reserve name source)

/-- Takes a name, with an underscore if it is reserved and the scope escapes, and gives it back. -/
def claim (s : NameScope) (name source : String) : Except NameClash (String × NameScope) :=
  if name.isEmpty then .error ⟨name, source, s.label ++ " (empty identifier)"⟩
  else if s.reserved.contains name && !s.escapes then .error ⟨name, source, "a reserved word"⟩
  else s.take (s.escaped name) source

/-- A name with a number, from 2 on; before that, the name itself. -/
def numbered (name : String) (n : Nat) : String := if n < 2 then name else name ++ toString n

/-- The first number from `n` on with which a name is free, among the next `tries`. -/
def firstFree (s : NameScope) (name : String) : (tries n : Nat) → Nat
  | 0, n => n
  | tries + 1, n =>
    if s.contains (numbered name n) then firstFree s name tries (n + 1) else n

/-- Takes a name, with the least number that makes it free, and gives it back. -/
def claimUnique (s : NameScope) (name source : String) : String × NameScope :=
  let escaped := s.escaped name
  let free := numbered escaped (s.firstFree escaped (s.names.length + 1) 1)
  (free, s.reserve free source)

end NameScope

end Wadl
