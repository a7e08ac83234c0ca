import Wadl.Source.Expression
import Wadl.Text.Blank

/-!
# Statements

The grammar of statements, except for those that match patterns, as scans. `isWellFormed` says
whether source is not blank and consists of statements.
-/

namespace Wadl.Source

open Scan

/-! ## Simple statements -/

/-- Takes the value that is assigned or given back. -/
def assigned (n : Nat) : Scan Form := do
  if ← sees "yield" then
    yields n
    return .value
  bareSequence n

/-- Takes further values of a chain of assignments; all but the last are targets. -/
def assignments : (fuel : Nat) → Form → Scan Unit
  | 0, _ => failure
  | n + 1, f => do
    if ← eat? "=" then
      if !f.isTarget then failure
      assignments n (← assigned n)

/-- Operators that change what a target holds. -/
def changeMarks : List String :=
  ["+=", "-=", "*=", "/=", "//=", "%=", "@=", "&=", "|=", "^=", ">>=", "<<=", "**="]

/-- Takes an expression or an assignment. -/
def valueStatement (n : Nat) : Scan Unit := do
  let f ← assigned n
  if ← eat? ":" then
    if !f.isSingle then failure
    let _ ← expression n
    if ← eat? "=" then
      let _ ← assigned n
  else if ← eatAny changeMarks then
    if !f.isSingle then failure
    let _ ← assigned n
  else assignments n f

/-- Whether a simple statement ends here. -/
def atEnd : Scan Bool := return (← sees ";") || (← get).head? == some .newline

/-- Takes names with commas between. -/
def nameList : (fuel : Nat) → Scan Unit
  | 0 => failure
  | n + 1 => do
    name
    if ← eat? "," then nameList n

/-- Takes a name after `as`, if there is one. -/
def alias? : Scan Unit := do
  if ← eat? "as" then name

/-- Takes imported modules. -/
def modules : (fuel : Nat) → Scan Unit
  | 0 => failure
  | n + 1 => do
    dottedName n
    alias?
    if ← eat? "," then modules n

/-- Takes imported names; in brackets, a comma may stand after the last. -/
def imported (inBrackets : Bool) : (fuel : Nat) → Scan Unit
  | 0 => failure
  | n + 1 => do
    name
    alias?
    if ← eat? "," then
      if inBrackets && (← sees ")") then return ()
      imported inBrackets n

/-- Takes the points before a module, and says whether there are any. -/
def points : (fuel : Nat) → Scan Bool
  | 0 => failure
  | n + 1 => do
    if ← eatAny [".", "..."] then
      let _ ← points n
      return true
    return false

/-- Takes what stands after `from`. -/
def importFrom (n : Nat) : Scan Unit := do
  let isRelative ← points n
  if !(isRelative && (← sees "import")) then dottedName n
  eat "import"
  if ← eat? "*" then return ()
  if ← eat? "(" then
    imported true n
    eat ")"
  else imported false n

/-- Takes a statement that stands on one line. -/
def simple (n : Nat) : Scan Unit := do
  if ← eatAny ["pass", "break", "continue"] then return ()
  if ← eat? "return" then
    if ← atEnd then return ()
    let _ ← bareSequence n
  else if ← eat? "raise" then
    if ← atEnd then return ()
    let _ ← expression n
    if ← eat? "from" then
      let _ ← expression n
  else if ← eat? "import" then modules n
  else if ← eat? "from" then importFrom n
  else if ← eatAny ["global", "nonlocal"] then nameList n
  else if ← eat? "assert" then
    let _ ← expression n
    if ← eat? "," then
      let _ ← expression n
  else if ← eat? "del" then
    let f ← bareSequence n
    if f.isDeletable then return () else failure
  else valueStatement n

/-- Takes simple statements and the end of their line. -/
def simpleLine : (fuel : Nat) → Scan Unit
  | 0 => failure
  | n + 1 => do
    simple n
    if ← eat? ";" then
      if (← get).head? == some .newline then token .newline else simpleLine n
    else token .newline

/-! ## Compound statements -/

/-- Takes the contexts of a `with`, with commas between; in brackets, one may stand after the
last. -/
def contexts (inBrackets : Bool) : (fuel : Nat) → Scan Unit
  | 0 => failure
  | n + 1 => do
    let _ ← expression n
    if ← eat? "as" then target n
    if ← eat? "," then
      if inBrackets && (← sees ")") then return ()
      contexts inBrackets n

/-- Takes the contexts of a `with` and the colon. -/
def withHead (n : Nat) : Scan Unit :=
  (do eat "("; contexts true n; eat ")"; eat ":") <|> (do contexts false n; eat ":")

/-- Takes the bases of a class, if there are any. -/
def bases (n : Nat) : Scan Unit := do
  if ← eat? "(" then arguments n false .values

/-- Takes what a handler handles; `isGroup` for a handler of groups. Says whether it handles all. -/
def handled (n : Nat) (isGroup : Bool) : Scan Unit := do
  if !isGroup && (← sees ":") then return ()
  let _ ← expression n
  alias?

mutual

/-- Takes statements up to the end of their block; there is at least one. -/
def statements : (fuel : Nat) → Scan Unit
  | 0 => failure
  | n + 1 => do
    statement n
    match ← next? with
    | none | some .dedent => return ()
    | _ => statements n

/-- Takes the block of a statement. -/
def block : (fuel : Nat) → Scan Unit
  | 0 => failure
  | n + 1 => do
    if (← get).head? == some .newline then
      token .newline
      token .indent
      statements n
      token .dedent
    else simpleLine n

/-- Takes a statement. -/
def statement : (fuel : Nat) → Scan Unit
  | 0 => failure
  | n + 1 => do
    if ← eat? "@" then
      let _ ← named n
      token .newline
      decorated n
    else if ← eat? "class" then classBody n
    else if ← eat? "def" then functionBody n
    else if ← eat? "if" then branches n
    else if ← eat? "while" then
      let _ ← named n
      eat ":"
      block n
      otherwise n
    else if ← eat? "for" then loop n
    else if ← eat? "with" then
      withHead n
      block n
    else if ← eat? "try" then
      eat ":"
      block n
      handlers n
    else if ← eat? "async" then
      if ← eat? "def" then functionBody n
      else if ← eat? "for" then loop n
      else
        eat "with"
        withHead n
        block n
    else simpleLine n

/-- Takes a class or a function, perhaps after further decorators. -/
def decorated : (fuel : Nat) → Scan Unit
  | 0 => failure
  | n + 1 => do
    if ← eat? "@" then
      let _ ← named n
      token .newline
      decorated n
    else if ← eat? "class" then classBody n
    else
      let _ ← eat? "async"
      eat "def"
      functionBody n

/-- Takes what stands after `class`. -/
def classBody : (fuel : Nat) → Scan Unit
  | 0 => failure
  | n + 1 => do
    name
    bases n
    eat ":"
    block n

/-- Takes what stands after `def`. -/
def functionBody : (fuel : Nat) → Scan Unit
  | 0 => failure
  | n + 1 => do
    name
    eat "("
    parameters n true ")" {}
    eat ")"
    if ← eat? "->" then
      let _ ← expression n
    eat ":"
    block n

/-- Takes what stands after `if`. -/
def branches : (fuel : Nat) → Scan Unit
  | 0 => failure
  | n + 1 => do
    let _ ← named n
    eat ":"
    block n
    if ← eat? "elif" then branches n else otherwise n

/-- Takes an `else`, if there is one. -/
def otherwise : (fuel : Nat) → Scan Unit
  | 0 => failure
  | n + 1 => do
    if ← eat? "else" then
      eat ":"
      block n

/-- Takes what stands after `for`. -/
def loop : (fuel : Nat) → Scan Unit
  | 0 => failure
  | n + 1 => do
    targets n
    eat "in"
    let _ ← bareSequence n
    eat ":"
    block n
    otherwise n

/-- Takes the handlers of a `try`, with what stands after them. -/
def handlers : (fuel : Nat) → Scan Unit
  | 0 => failure
  | n + 1 => do
    if ← eat? "except" then
      let isGroup ← eat? "*"
      handled n isGroup
      eat ":"
      block n
      moreHandlers n isGroup
    else
      eat "finally"
      eat ":"
      block n

/-- Takes further handlers of a `try`, all for groups or none, with what stands after them. -/
def moreHandlers : (fuel : Nat) → (isGroup : Bool) → Scan Unit
  | 0, _ => failure
  | n + 1, isGroup => do
    if ← eat? "except" then
      if isGroup then eat "*"
      handled n isGroup
      eat ":"
      block n
      moreHandlers n isGroup
    else
      otherwise n
      if ← eat? "finally" then
        eat ":"
        block n

end

/-! ## Source -/

/-- Whether all tokens are statements. -/
def areStatements (ts : List Token) : Bool :=
  ts.isEmpty || (((statements (32 * ts.length + 32)).run ts).map (·.2)) == some []

/-- Whether source is not blank and consists of statements. -/
def isWellFormed (source : String) : Bool :=
  !(source.toList.all Text.isBlank) && (tokens? source).any areStatements

end Wadl.Source
