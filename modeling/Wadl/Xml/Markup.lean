import Wadl.Text.CharClass
import Wadl.Xml.Chars

/-!
# Markup: from characters to tokens

`chunks` cuts a document at its markup; each chunk is then read on its own: tags by `readTag`, text
and attribute values by `parts`. White space in attribute values and line ends are expected to be
normalized already. References to entities other than the five predefined ones stay in the text as
`Part.entity`.
-/

namespace Wadl.Xml

/-- A piece of character data. -/
inductive Part where
  /-- A character that stands there itself. -/
  | plain (c : Char)
  /-- A character that a reference stands for. -/
  | referred (c : Char)
  /-- A reference to an entity that the document declares. -/
  | entity (name : List Char)
  deriving DecidableEq, Repr

/-- An attribute as it is written: its name, possibly with a colon, and its value. -/
structure RawAttribute where
  name : List Char
  value : List Part
  deriving DecidableEq, Repr

/-! ## Chunks -/

/-- A piece of a document between two cuts. -/
inductive Chunk where
  | text (cs : List Char)
  /-- What stands between `<` and `>`. -/
  | tag (cs : List Char)
  | comment (cs : List Char)
  | cdata (cs : List Char)
  /-- What stands between `<?` and `?>`. -/
  | instruction (cs : List Char)
  deriving DecidableEq, Repr

/-- What is being read; the characters so far are kept last first. -/
inductive Mode where
  | text (acc : List Char)
  /-- A tag, inside a quoted value if `quote` says so. -/
  | tag (acc : List Char) (quote : Option Char)
  | comment (acc : List Char)
  | cdata (acc : List Char)
  | instruction (acc : List Char)

/-- A text chunk before others, if there is any text. -/
def flushText (acc : List Char) (rest : List Chunk) : List Chunk :=
  if acc.isEmpty then rest else .text acc.reverse :: rest

/-- What a tag turns out to be after the characters read so far. -/
def tagMode (acc : List Char) : Mode :=
  if acc = ['-', '-', '!'] then .comment []
  else if acc = "[ATADC[!".toList then .cdata []
  else if acc = ['?'] then .instruction []
  else .tag acc none

/-- Cuts a document into its chunks; fails at markup that is not closed. -/
def chunksFrom : Mode → List Char → Option (List Chunk)
  | .text acc, [] => some (flushText acc [])
  | .text acc, c :: cs =>
    if c = '<' then (chunksFrom (.tag [] none) cs).map (flushText acc)
    else chunksFrom (.text (c :: acc)) cs
  | .tag acc none, c :: cs =>
    if c = '>' then (chunksFrom (.text []) cs).map (.tag acc.reverse :: ·)
    else if c = '<' then none
    else if c = '"' ∨ c = '\'' then chunksFrom (.tag (c :: acc) (some c)) cs
    else chunksFrom (tagMode (c :: acc)) cs
  | .tag acc (some quote), c :: cs =>
    chunksFrom (.tag (c :: acc) (if c = quote then none else some quote)) cs
  | .comment acc, '-' :: '-' :: cs =>
    match cs with
    | '>' :: rest => (chunksFrom (.text []) rest).map (.comment acc.reverse :: ·)
    | _ => none
  | .comment acc, c :: cs => chunksFrom (.comment (c :: acc)) cs
  | .cdata acc, ']' :: ']' :: '>' :: cs =>
    (chunksFrom (.text []) cs).map (.cdata acc.reverse :: ·)
  | .cdata acc, c :: cs => chunksFrom (.cdata (c :: acc)) cs
  | .instruction acc, '?' :: '>' :: cs =>
    (chunksFrom (.text []) cs).map (.instruction acc.reverse :: ·)
  | .instruction acc, c :: cs => chunksFrom (.instruction (c :: acc)) cs
  | _, [] => none

/-- Cuts a document into its chunks; fails at markup that is not closed. -/
def chunks (cs : List Char) : Option (List Chunk) := chunksFrom (.text []) cs

/-! ## References and character data -/

/-- Entities that every document has. -/
def predefined : List (List Char × Char) :=
  [("lt".toList, '<'), ("gt".toList, '>'), ("amp".toList, '&'), ("quot".toList, '"'),
    ("apos".toList, '\'')]

/-- The number that digits write in a base of at most sixteen. -/
def digitsIn (base : Nat) (ds : List Char) : Option Nat :=
  if ds.isEmpty then none
  else ds.foldlM (fun n d => (Digit.hexValue? d).bind fun v =>
    if v < base then some (n * base + v) else none) 0

/-- A character that a document may hold, by its code point. -/
def charOf? (n : Nat) : Option Char :=
  if h : n.isValidChar then
    let c := Char.ofNatAux n h
    if isChar c then some c else none
  else none

/-- A name without a colon. -/
def isName : List Char → Bool
  | [] => false
  | c :: cs => isNameStart c && cs.all isNamePart

/-- What stands between `&` and `;`. -/
def reference (cs : List Char) : Option Part :=
  match cs with
  | '#' :: 'x' :: ds => ((digitsIn 16 ds).bind charOf?).map .referred
  | '#' :: ds => ((digitsIn 10 ds).bind charOf?).map .referred
  | _ =>
    match predefined.lookup cs with
    | some c => some (.referred c)
    | none => if isName cs then some (.entity cs) else none

/-- Reads character data; `acc` holds the reference being read, if any, last character first. -/
def partsFrom : Option (List Char) → List Char → Option (List Part)
  | none, [] => some []
  | some _, [] => none
  | none, c :: cs =>
    if c = '&' then partsFrom (some []) cs
    else if isChar c then (partsFrom none cs).map (.plain c :: ·)
    else none
  | some acc, c :: cs =>
    if c = ';' then do
      let part ← reference acc.reverse
      let rest ← partsFrom none cs
      return part :: rest
    else partsFrom (some (c :: acc)) cs

/-- The parts of character data. -/
def parts (cs : List Char) : Option (List Part) := partsFrom none cs

/-- Whether the end mark of a literal section occurs. -/
def holdsSectionEnd : List Char → Bool
  | ']' :: ']' :: '>' :: _ => true
  | _ :: cs => holdsSectionEnd cs
  | [] => false

/-! ## Tags -/

/-- A name with at most one colon, between two names. -/
def isQualifiedName (cs : List Char) : Bool :=
  let first := cs.takeWhile (· != ':')
  match cs.dropWhile (· != ':') with
  | [] => isName first
  | _ :: second => isName first && isName second

/-- The value of an attribute: white space is normalized to spaces. -/
def attributeValue (raw : List Char) : Option (List Part) :=
  if raw.contains '<' then none
  else (parts raw).map fun ps => ps.map fun
    | .plain c => .plain (if isSpace c then ' ' else c)
    | p => p

/-- Where the reading of attributes stands; texts so far are kept last character first. -/
inductive AttributeState where
  /-- Between attributes, `spaced` once white space was met. -/
  | between (spaced : Bool)
  | name (acc : List Char)
  | afterName (name : List Char)
  | afterEquals (name : List Char)
  | value (name : List Char) (quote : Char) (acc : List Char)
  /-- After the slash that closes an empty element. -/
  | closed

/-- Reads the attributes of a tag and whether it ends with a slash. -/
def attributesFrom : AttributeState → List Char → Option (List RawAttribute × Bool)
  | .between _, [] => some ([], false)
  | .closed, [] => some ([], true)
  | .between spaced, c :: cs =>
    if isSpace c then attributesFrom (.between true) cs
    else if c = '/' then attributesFrom .closed cs
    else if spaced then attributesFrom (.name [c]) cs
    else none
  | .name acc, c :: cs =>
    if c = '=' then attributesFrom (.afterEquals acc.reverse) cs
    else if isSpace c then attributesFrom (.afterName acc.reverse) cs
    else attributesFrom (.name (c :: acc)) cs
  | .afterName name, c :: cs =>
    if c = '=' then attributesFrom (.afterEquals name) cs
    else if isSpace c then attributesFrom (.afterName name) cs
    else none
  | .afterEquals name, c :: cs =>
    if c = '"' ∨ c = '\'' then attributesFrom (.value name c []) cs
    else if isSpace c then attributesFrom (.afterEquals name) cs
    else none
  | .value name quote acc, c :: cs =>
    if c = quote then do
      let value ← attributeValue acc.reverse
      let (rest, empty) ← attributesFrom (.between false) cs
      if isQualifiedName name then return (⟨name, value⟩ :: rest, empty) else none
    else attributesFrom (.value name quote (c :: acc)) cs
  | _, _ => none

/-- A tag as it is written. -/
inductive RawTag where
  | start (name : List Char) (attributes : List RawAttribute) (empty : Bool)
  | finish (name : List Char)
  deriving DecidableEq, Repr

/-- What a name may be followed by in a tag. -/
def endsName (c : Char) : Bool := isSpace c || c == '/'

/-- Reads what stands between `<` and `>`. -/
def readTag (cs : List Char) : Option RawTag :=
  match cs with
  | '/' :: rest =>
    let name := rest.takeWhile (!isSpace ·)
    if isQualifiedName name && (rest.dropWhile (!isSpace ·)).all isSpace then some (.finish name)
    else none
  | _ =>
    let name := cs.takeWhile (!endsName ·)
    if isQualifiedName name then
      (attributesFrom (.between false) (cs.dropWhile (!endsName ·))).map fun (attributes, empty) =>
        .start name attributes empty
    else none

/-- Reads what stands between `<?` and `?>`: a target that is not reserved, then data. -/
def readInstruction (cs : List Char) : Option (List Char) :=
  let target := cs.takeWhile (!isSpace ·)
  let data := (cs.dropWhile (!isSpace ·)).dropWhile isSpace
  let reserved := target.map (fun c => if c = 'X' then 'x' else if c = 'M' then 'm'
    else if c = 'L' then 'l' else c) = "xml".toList
  if isName target && !reserved && cs.all isChar then
    some (if data.isEmpty then target else target ++ ' ' :: data)
  else none

/-! ## Tokens -/

/-- A piece of content. -/
inductive Token where
  | text (parts : List Part)
  /-- Text of a literal section. -/
  | literal (cs : List Char)
  | tag (tag : RawTag)
  | comment (cs : List Char)
  | instruction (cs : List Char)
  deriving DecidableEq, Repr

/-- The token of a chunk. -/
def Chunk.token? : Chunk → Option Token
  | .text cs => if holdsSectionEnd cs then none else (parts cs).map .text
  | .tag cs => (readTag cs).map .tag
  | .comment cs => if cs.all isChar then some (.comment cs) else none
  | .cdata cs => if cs.all isChar then some (.literal cs) else none
  | .instruction cs => (readInstruction cs).map .instruction

/-- The tokens of a document's content. -/
def tokens (cs : List Char) : Option (List Token) := do
  (← chunks cs).mapM Chunk.token?

end Wadl.Xml
