import Wadl.Yaml.Token

/-!
# The tree of a YAML document

`Node.ofTokens?` makes a tree of the tokens of a document. Each node has the tag that it was given,
if any; an alias is the node of its anchor, and `circle` where that node is not complete yet.
-/

namespace Wadl.Yaml

/-- What says of which type a node is. -/
inductive NodeTag where
  /-- The node has no tag: a plain text can be a value of any type, all others are what they
  seem. -/
  | open
  | text
  | named (tag : String)
  deriving DecidableEq, Repr

/-- A node of a document. -/
inductive Node where
  | scalar (tag : NodeTag) (text : String)
  | sequence (tag : NodeTag) (items : List Node)
  | mapping (tag : NodeTag) (entries : List (Node × Node))
  /-- A node that stands inside itself. -/
  | circle
  deriving Repr, Inhabited

/-- What is known while a tree is made. -/
structure Growth where
  tokens : List Token
  /-- The nodes of the anchors so far; none where one is not complete. -/
  anchors : List (String × Option Node) := []
  /-- The short forms for the beginnings of tags. -/
  handles : List (String × String) := []

/-- What takes tokens and gives a node, or fails. -/
abbrev Growing := StateT Growth Option

namespace Growing

/-- The next token. -/
def next? : Growing (Option Token) := return (← get).tokens.head?

/-- Takes the next token. -/
def skip : Growing Unit := modify fun g => { g with tokens := g.tokens.drop 1 }

/-- Takes a token, if it is next, and says whether it was. -/
def eat? (t : Token) : Growing Bool := do
  if (← next?) == some t then
    skip
    return true
  else return false

/-- Takes a token. -/
def eat (t : Token) : Growing Unit := do
  if ← eat? t then return () else failure

/-- Whether one of some tokens is next. -/
def seesAny (ts : List Token) : Growing Bool := do
  match ← next? with
  | some t => return ts.contains t
  | none => return false

/-- The text that stands for nothing. -/
def empty : Node := .scalar .open ""

/-- The short forms that every document has. -/
def standardHandles : List (String × String) := [("!", "!"), ("!!", "tag:yaml.org,2002:")]

/-- The tag that a token writes. -/
def tagOf (handle : Option String) (suffix : String) : Growing NodeTag := do
  match handle with
  | none => return if suffix = "!" then .open else .named suffix
  | some h =>
    match (← get).handles.lookup h with
    | some start => return .named (start ++ suffix)
    | none => failure

/-- Takes an anchor, if there is one. -/
def anchor? : Growing (Option String) := do
  match ← next? with
  | some (.anchor name) =>
    skip
    return some name
  | _ => return none

/-- Takes a tag, if there is one. -/
def tag? : Growing (Option NodeTag) := do
  match ← next? with
  | some (.tag handle suffix) =>
    skip
    return some (← tagOf handle suffix)
  | _ => return none

/-- Takes an anchor and a tag, in any order. -/
def properties : Growing (Option String × Option NodeTag) := do
  match ← anchor? with
  | some name => return (some name, ← tag?)
  | none =>
    match ← tag? with
    | some tag => return (← anchor?, some tag)
    | none => return (none, none)

/-- Says that a node with an anchor begins; no other node has the anchor. -/
def begin (anchor : Option String) : Growing Unit := do
  match anchor with
  | none => return ()
  | some name =>
    let g ← get
    if (g.anchors.lookup name).isSome then failure
    set { g with anchors := (name, none) :: g.anchors }

/-- Says that a node with an anchor is complete. -/
def finish (anchor : Option String) (node : Node) : Growing Node := do
  match anchor with
  | none => return node
  | some name =>
    modify fun g => { g with anchors := (name, some node) :: g.anchors }
    return node

/-- The tag of a text. -/
def scalarTag (isPlain : Bool) (tag : Option NodeTag) : NodeTag :=
  match tag with
  | some t => t
  | none => if isPlain then .open else .text

mutual

/-- Takes a node. `inBlock` says whether it may be a block, and `indentless` whether it may be a
sequence that is not indented. -/
def node : (fuel : Nat) → (inBlock indentless : Bool) → Growing Node
  | 0, _, _ => failure
  | n + 1, inBlock, indentless => do
    if let some (.alias name) ← next? then
      skip
      match (← get).anchors.lookup name with
      | some (some found) => return found
      | some none => return .circle
      | none => failure
    let (anchor, tag) ← properties
    begin anchor
    let collection := tag.getD .open
    match ← next? with
    | some (.scalar text isPlain) =>
      skip
      finish anchor (.scalar (scalarTag isPlain tag) text)
    | some .flowSequence =>
      skip
      finish anchor (.sequence collection (← flowItems n true))
    | some .flowMapping =>
      skip
      finish anchor (.mapping collection (← flowEntries n true))
    | some .blockSequence =>
      if !inBlock then failure
      skip
      let items ← blockItems n
      eat .blockEnd
      finish anchor (.sequence collection items)
    | some .blockMapping =>
      if !inBlock then failure
      skip
      finish anchor (.mapping collection (← blockEntries n))
    | some .blockEntry =>
      if indentless then finish anchor (.sequence collection (← indentlessItems n))
      else if anchor.isSome || tag.isSome then finish anchor (.scalar collection "")
      else failure
    | _ =>
      if anchor.isSome || tag.isSome then finish anchor (.scalar collection "") else failure

/-- Takes the items of a sequence in a block. -/
def blockItems : (fuel : Nat) → Growing (List Node)
  | 0 => failure
  | n + 1 => do
    if ← eat? .blockEntry then
      let item ← if ← seesAny [.blockEntry, .blockEnd] then pure empty else node n true false
      return item :: (← blockItems n)
    else return []

/-- Takes the items of a sequence that is not indented. -/
def indentlessItems : (fuel : Nat) → Growing (List Node)
  | 0 => failure
  | n + 1 => do
    if ← eat? .blockEntry then
      let item ←
        if ← seesAny [.blockEntry, .key, .value, .blockEnd] then pure empty else node n true false
      return item :: (← indentlessItems n)
    else return []

/-- Takes the entries of a mapping in a block, and its end. -/
def blockEntries : (fuel : Nat) → Growing (List (Node × Node))
  | 0 => failure
  | n + 1 => do
    if ← eat? .blockEnd then return []
    eat .key
    let key ← if ← seesAny [.key, .value, .blockEnd] then pure empty else node n true true
    let value ←
      if ← eat? .value then
        if ← seesAny [.key, .value, .blockEnd] then pure empty else node n true true
      else pure empty
    return (key, value) :: (← blockEntries n)

/-- Takes the items of a sequence in brackets, and the closing one. -/
def flowItems : (fuel : Nat) → (isFirst : Bool) → Growing (List Node)
  | 0, _ => failure
  | n + 1, isFirst => do
    if ← eat? .flowSequenceEnd then return []
    if !isFirst then eat .flowEntry
    if ← eat? .key then
      let key ←
        if ← seesAny [.value, .flowEntry, .flowSequenceEnd] then pure empty else node n false false
      let value ←
        if ← eat? .value then
          if ← seesAny [.flowEntry, .flowSequenceEnd] then pure empty else node n false false
        else pure empty
      return .mapping .open [(key, value)] :: (← flowItems n false)
    else if ← eat? .flowSequenceEnd then return []
    else
      let item ← node n false false
      return item :: (← flowItems n false)

/-- Takes the entries of a mapping in brackets, and the closing one. -/
def flowEntries : (fuel : Nat) → (isFirst : Bool) → Growing (List (Node × Node))
  | 0, _ => failure
  | n + 1, isFirst => do
    if ← eat? .flowMappingEnd then return []
    if !isFirst then eat .flowEntry
    if ← eat? .key then
      let key ←
        if ← seesAny [.value, .flowEntry, .flowMappingEnd] then pure empty else node n false false
      let value ←
        if ← eat? .value then
          if ← seesAny [.flowEntry, .flowMappingEnd] then pure empty else node n false false
        else pure empty
      return (key, value) :: (← flowEntries n false)
    else if ← eat? .flowMappingEnd then return []
    else
      let key ← node n false false
      return (key, empty) :: (← flowEntries n false)

end

/-- Takes directives. The version is the first one, and it and each short form is given once. -/
def directives : (fuel : Nat) → (hasVersion : Bool) → Growing Unit
  | 0, _ => failure
  | n + 1, hasVersion => do
    match ← next? with
    | some (.version major) =>
      if hasVersion || major ≠ 1 then failure
      skip
      directives n true
    | some (.handle name start) =>
      let g ← get
      if (g.handles.lookup name).isSome then failure
      set { g with handles := g.handles ++ [(name, start)] }
      skip
      directives n hasVersion
    | some .otherDirective =>
      skip
      directives n hasVersion
    | _ => return ()

/-- Takes the ends of documents. -/
def documentEnds : (fuel : Nat) → Growing Unit
  | 0 => failure
  | n + 1 => do
    if ← eat? .documentEnd then documentEnds n

/-- Takes all tokens, which are of at most one document. -/
def document (n : Nat) : Growing (Option Node) := do
  let addStandard : Growing Unit :=
    modify fun g => { g with handles := g.handles ++ standardHandles }
  match ← next? with
  | none => return none
  | some t =>
    let root ←
      match t with
      | .version _ | .handle .. | .otherDirective | .documentStart => do
        directives n false
        eat .documentStart
        addStandard
        let isEmpty := match ← next? with
          | none | some (.version _) | some (.handle ..) | some .otherDirective => true
          | some .documentStart | some .documentEnd => true
          | _ => false
        if isEmpty then pure empty else node n true false
      | _ => do
        addStandard
        node n true false
    documentEnds n
    if (← next?).isSome then failure
    return some root

end Growing

/-- The root of a document, if there is one, from its tokens. -/
def Node.ofTokens? (ts : List Token) : Option (Option Node) :=
  ((Growing.document (4 * ts.length + 8)).run { tokens := ts }).map (·.1)

end Wadl.Yaml
