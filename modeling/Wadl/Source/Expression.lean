import Wadl.Source.Scan

/-!
# Expressions

The grammar of expressions, as scans that fail where the tokens do not begin with one. All that is
kept of an expression is its `Form`, which says where it can be assigned to.
-/

namespace Wadl.Source

/-- What can be done with an expression besides taking its value. -/
inductive Form where
  | name
  /-- A part of a value. -/
  | part
  /-- A name or a part in brackets. -/
  | bracketed
  /-- Several targets; `hasStar` if one of them takes what is left. -/
  | several (hasStar : Bool)
  /-- A target that takes what is left. -/
  | starred
  /-- Nothing can be assigned to it. -/
  | value
  deriving DecidableEq, Repr

namespace Form

/-- Whether an assignment can be made to the form. -/
def isTarget (f : Form) : Bool := f != .value

/-- Whether one value can be assigned with an operator, or with a type. -/
def isSingle : Form → Bool
  | .name | .part | .bracketed => true
  | _ => false

/-- Whether the form can be deleted. -/
def isDeletable : Form → Bool
  | .several hasStar => !hasStar
  | .starred | .value => false
  | _ => true

/-- The form of a star before a form. -/
def star : Form → Form
  | .value | .starred => .value
  | _ => .starred

/-- The form in brackets. -/
def inBrackets : Form → Form
  | .name | .part | .bracketed => .bracketed
  | .several hasStar => .several hasStar
  | _ => .value

/-- The form of a sequence. -/
def sequence (fs : List Form) : Form :=
  if fs.all isTarget then
    .several (fs.any fun f => f == .starred || f == .several true)
  else .value

end Form

/-- Where the arguments of a call are: at first values, then values by name, then mappings. -/
inductive CallStage where
  | values
  | named
  | mappings
  deriving DecidableEq, Repr

/-- What has been seen of the parameters of a function. -/
structure Params where
  isEmpty : Bool := true
  hasDefault : Bool := false
  hasSlash : Bool := false
  hasStar : Bool := false
  /-- Whether a star waits for a parameter after it. -/
  isOpen : Bool := false

open Scan

/-- Operators between values that bind more strongly than comparisons. -/
def binaryMarks : List String :=
  ["|", "^", "&", "<<", ">>", "+", "-", "*", "/", "//", "%", "@"]

/-- Takes a comparison operator and says whether there is one. -/
def comparisonMark : Scan Bool := do
  if ← eatAny ["==", "!=", "<", ">", "<=", ">=", "in"] then return true
  if ← eat? "is" then
    let _ ← eat? "not"
    return true
  if ← eat? "not" then
    eat "in"
    return true
  return false

mutual

/-- Takes an expression. -/
def expression : (fuel : Nat) → Scan Form
  | 0 => failure
  | n + 1 => do
    if ← eat? "lambda" then
      parameters n false ":" {}
      eat ":"
      let _ ← expression n
      return .value
    let f ← alternatives n
    if ← eat? "if" then
      let _ ← alternatives n
      eat "else"
      let _ ← expression n
      return .value
    return f

/-- Takes operands of `or` and `and`. -/
def alternatives : (fuel : Nat) → Scan Form
  | 0 => failure
  | n + 1 => do
    let f ← negation n
    if ← eatAny ["or", "and"] then
      let _ ← alternatives n
      return .value
    return f

/-- Takes an operand of `not`. -/
def negation : (fuel : Nat) → Scan Form
  | 0 => failure
  | n + 1 => do
    if ← eat? "not" then
      let _ ← negation n
      return .value
    comparison n

/-- Takes operands of comparisons. -/
def comparison : (fuel : Nat) → Scan Form
  | 0 => failure
  | n + 1 => do
    let f ← operation n
    if ← comparisonMark then
      let _ ← comparison n
      return .value
    return f

/-- Takes operands of binary operators. -/
def operation : (fuel : Nat) → Scan Form
  | 0 => failure
  | n + 1 => do
    let f ← factor n
    if ← eatAny binaryMarks then
      let _ ← operation n
      return .value
    return f

/-- Takes a value with a sign, or a power. -/
def factor : (fuel : Nat) → Scan Form
  | 0 => failure
  | n + 1 => do
    if ← eatAny ["+", "-", "~"] then
      let _ ← factor n
      return .value
    let waits ← eat? "await"
    let f ← primary n (← atom n)
    if ← eat? "**" then
      let _ ← factor n
      return .value
    return if waits then .value else f

/-- Takes what selects from a value or calls it. -/
def primary : (fuel : Nat) → Form → Scan Form
  | 0, _ => failure
  | n + 1, f => do
    if ← eat? "." then
      name
      primary n .part
    else if ← eat? "(" then
      arguments n true .values
      primary n .value
    else if ← eat? "[" then
      slices n
      primary n .part
    else return f

/-- Takes a value that has no parts. -/
def atom : (fuel : Nat) → Scan Form
  | 0 => failure
  | n + 1 => do
    match ← next? with
    | some (.word w) =>
      skip
      if ["None", "True", "False"].contains w then return .value
      if keywords.contains w then failure
      return .name
    | some .number =>
      skip
      return .value
    | some (.text isBytes) =>
      texts isBytes n
      return .value
    | some (.mark "...") =>
      skip
      return .value
    | some (.mark "(") =>
      skip
      group n
    | some (.mark "[") =>
      skip
      sequenceUntil n "]"
    | some (.mark "\x7b") =>
      skip
      braces n
    | _ => failure

/-- Takes an expression that may have a name of its own. -/
def named : (fuel : Nat) → Scan Form
  | 0 => failure
  | n + 1 => do
    if ← seesNameThen ":=" then
      skip
      skip
      let _ ← expression n
      return .value
    expression n

/-- Takes an element of a sequence. -/
def element : (fuel : Nat) → Scan Form
  | 0 => failure
  | n + 1 => do
    if ← eat? "*" then return (← operation n).star
    named n

/-- Takes an element of a sequence without brackets. -/
def bareElement : (fuel : Nat) → Scan Form
  | 0 => failure
  | n + 1 => do
    if ← eat? "*" then return (← operation n).star
    expression n

/-- Takes the elements of a sequence and the bracket after them. -/
def sequenceUntil : (fuel : Nat) → (close : String) → Scan Form
  | 0, _ => failure
  | n + 1, close => do
    if ← eat? close then return .several false
    let isStar ← sees "*"
    let f ← element n
    if !isStar then
      if ← clauses n then
        eat close
        return .value
    let fs ← elementsUntil n close
    return .sequence (f :: fs)

/-- Takes further elements, each after a comma, and the bracket after them. -/
def elementsUntil : (fuel : Nat) → (close : String) → Scan (List Form)
  | 0, _ => failure
  | n + 1, close => do
    if ← eat? close then return []
    eat ","
    if ← eat? close then return []
    let f ← element n
    return f :: (← elementsUntil n close)

/-- Takes what stands in round brackets, and the closing one. -/
def group : (fuel : Nat) → Scan Form
  | 0 => failure
  | n + 1 => do
    if ← eat? ")" then return .several false
    if ← sees "yield" then
      yields n
      eat ")"
      return .value
    let isStar ← sees "*"
    let f ← element n
    if !isStar then
      if ← clauses n then
        eat ")"
        return .value
      if ← eat? ")" then return f.inBrackets
    else if !(← sees ",") then failure
    let fs ← elementsUntil n ")"
    return .sequence (f :: fs)

/-- Takes what stands in curly brackets, and the closing one. -/
def braces : (fuel : Nat) → Scan Form
  | 0 => failure
  | n + 1 => do
    if ← eat? "\x7d" then return .value
    if ← sees "**" then
      entriesUntil n
      return .value
    if ← sees "*" then return ← sequenceUntil n "\x7d"
    let isNamed ← seesNameThen ":="
    let _ ← element n
    if !isNamed then
      if ← eat? ":" then
        let _ ← expression n
        if ← clauses n then eat "\x7d"
        else if ← eat? "," then entriesUntil n
        else eat "\x7d"
        return .value
    if ← clauses n then eat "\x7d"
    else
      let _ ← elementsUntil n "\x7d"
    return .value

/-- Takes entries of a mapping and the bracket after them. -/
def entriesUntil : (fuel : Nat) → Scan Unit
  | 0 => failure
  | n + 1 => do
    if ← eat? "\x7d" then return ()
    if ← eat? "**" then
      let _ ← operation n
    else
      let _ ← expression n
      eat ":"
      let _ ← expression n
    if ← eat? "," then entriesUntil n else eat "\x7d"

/-- Takes the clauses that run over values, and says whether there are any. -/
def clauses : (fuel : Nat) → Scan Bool
  | 0 => failure
  | n + 1 => do
    if (← eat? "async") || (← sees "for") then
      eat "for"
      targets n
      eat "in"
      let _ ← alternatives n
      conditions n
      let _ ← clauses n
      return true
    return false

/-- Takes the conditions of a clause. -/
def conditions : (fuel : Nat) → Scan Unit
  | 0 => failure
  | n + 1 => do
    if ← eat? "if" then
      let _ ← alternatives n
      conditions n

/-- Takes a target. -/
def target : (fuel : Nat) → Scan Unit
  | 0 => failure
  | n + 1 => do
    let _ ← eat? "*"
    let f ← operation n
    if f.isTarget then return () else failure

/-- Takes targets with commas between. -/
def targets : (fuel : Nat) → Scan Unit
  | 0 => failure
  | n + 1 => do
    target n
    if ← eat? "," then
      if !(← sees "in") then targets n

/-- Takes the arguments of a call and the bracket after them. A first argument alone may have
clauses. -/
def arguments : (fuel : Nat) → (isFirst : Bool) → CallStage → Scan Unit
  | 0, _, _ => failure
  | n + 1, isFirst, stage => do
    if ← eat? ")" then return ()
    let mut stage := stage
    if ← eat? "**" then
      let _ ← expression n
      stage := .mappings
    else if ← eat? "*" then
      if stage = .mappings then failure
      let _ ← expression n
    else if ← seesNameThen "=" then
      skip
      skip
      let _ ← expression n
      if stage = .values then stage := .named
    else
      if stage ≠ .values then failure
      let _ ← named n
      if isFirst then
        if ← clauses n then
          eat ")"
          return ()
    if ← eat? "," then
      if isFirst && (← sees ")") then eat ")" else arguments n false stage
    else eat ")"

/-- Takes what stands in the brackets of a selection, and the closing one. -/
def slices : (fuel : Nat) → Scan Unit
  | 0 => failure
  | n + 1 => do
    slice n
    if ← eat? "]" then return ()
    eat ","
    if ← eat? "]" then return ()
    slices n

/-- Takes one index or range. -/
def slice : (fuel : Nat) → Scan Unit
  | 0 => failure
  | n + 1 => do
    if ← eat? "*" then
      let _ ← expression n
    else if ← seesNameThen ":=" then
      let _ ← named n
    else
      if !(← sees ":") then
        let _ ← expression n
      if ← eat? ":" then
        bound n
        if ← eat? ":" then bound n

/-- Takes a bound of a range, if there is one. -/
def bound : (fuel : Nat) → Scan Unit
  | 0 => failure
  | n + 1 => do
    if !((← sees ":") || (← sees "]") || (← sees ",")) then
      let _ ← expression n

/-- Takes a `yield` and what it gives. -/
def yields : (fuel : Nat) → Scan Unit
  | 0 => failure
  | n + 1 => do
    eat "yield"
    if ← eat? "from" then
      let _ ← expression n
    else if !((← sees ")") || (← sees "=") || (← sees ";") || (← get).head? == some .newline) then
      let _ ← bareSequence n

/-- Takes a sequence without brackets, or a single expression. -/
def bareSequence : (fuel : Nat) → Scan Form
  | 0 => failure
  | n + 1 => do
    let f ← bareElement n
    if ← sees "," then
      let fs ← bareElements n
      return .sequence (f :: fs)
    return f

/-- Takes further elements of a sequence without brackets, each after a comma. -/
def bareElements : (fuel : Nat) → Scan (List Form)
  | 0 => failure
  | n + 1 => do
    if ← eat? "," then
      match ← next? with
      | some .newline => return []
      | some (.mark m) => if [")", "=", ";", ":"].contains m then return []
      | _ => pure ()
      let f ← bareElement n
      return f :: (← bareElements n)
    return []

/-- Takes parameters up to the mark that closes them. `typed` says whether they may have types. -/
def parameters : (fuel : Nat) → (typed : Bool) → (close : String) → Params → Scan Unit
  | 0, _, _, _ => failure
  | n + 1, typed, close, ps => do
    if ← sees close then
      if ps.isOpen then failure
      return ()
    let mut ps := ps
    if ← eat? "/" then
      if ps.isEmpty || ps.hasSlash || ps.hasStar then failure
      ps := { ps with hasSlash := true }
    else if ← eat? "**" then
      if ps.isOpen then failure
      name
      if typed then
        if ← eat? ":" then
          let _ ← expression n
      let _ ← eat? ","
      if ← sees close then return () else failure
    else if ← eat? "*" then
      if ps.hasStar then failure
      if ← sees "," then
        ps := { ps with hasStar := true, isOpen := true }
      else
        name
        if typed then
          if ← eat? ":" then
            let _ ← eat? "*"
            let _ ← expression n
        ps := { ps with hasStar := true }
    else
      name
      if typed then
        if ← eat? ":" then
          let _ ← expression n
      if ← eat? "=" then
        let _ ← expression n
        ps := { ps with hasDefault := true }
      else if ps.hasDefault && !ps.hasStar then failure
      ps := { ps with isOpen := false }
    if ← eat? "," then parameters n typed close { ps with isEmpty := false }
    else if (← sees close) && !ps.isOpen then return ()
    else failure

end

end Wadl.Source
