import Wadl.Xml.Markup

/-!
# Document type declarations

A document may begin with declarations of its own: entities, and attributes with default values.
`Doctype.read?` reads them; declarations of elements and notations are checked and passed over. The
readers take the characters that are left and give back what they found with the rest, or nothing
where the declaration is malformed. A reference to declarations elsewhere, which are never read,
makes those that follow it count for nothing, unless the document says that it stands alone.
-/

namespace Wadl.Xml

/-- What an entity stands for. -/
inductive Entity where
  | internal (replacement : List Char)
  /-- Kept outside the document, so never read. -/
  | external
  deriving DecidableEq, Repr

/-- A declared attribute: its element, its name, whether its value is a list of names, its
default. -/
structure AttributeDecl where
  element : List Char
  name : List Char
  tokenized : Bool
  default : Option (List Char)
  deriving Repr

/-- The declarations of a document. -/
structure Doctype where
  entities : List (List Char × Entity)
  attributes : List AttributeDecl
  /-- Whether the document says that it stands alone. -/
  standalone : Bool
  /-- Whether there are declarations elsewhere. -/
  refersElsewhere : Bool
  /-- Whether declarations are passed over. -/
  passesOver : Bool
  deriving Repr

/-- A document without declarations. -/
def Doctype.empty (standalone : Bool) : Doctype := ⟨[], [], standalone, false, false⟩

namespace Doctype

/-- Whether an entity that is not declared here may be declared elsewhere. -/
def isLenient (d : Doctype) : Bool := d.refersElsewhere && !d.standalone

/-! ## Values of attributes -/

/-- The entities inside the entity `name`, which may not be referred to there. -/
def inside (name : List Char) (entities : List (List Char × Entity)) :
    List (List Char × Entity) :=
  entities.map fun e => if e.1 = name then (name, .external) else e

/-- The text of an attribute value; `fuel` exceeds the number of entities, so it is never used
up. -/
def valueText (lenient : Bool) :
    Nat → List (List Char × Entity) → List Part → Option (List Char)
  | 0, _, _ => none
  | fuel + 1, entities, parts =>
    (parts.mapM fun (part : Part) => match part with
      | .plain c => some [c]
      | .referred c => some [c]
      | .entity name =>
        match entities.lookup name with
        | some (.internal replacement) =>
          (attributeValue replacement).bind (valueText lenient fuel (inside name entities))
        | some .external => none
        | none => if lenient then some [] else none).map List.flatten

/-- A list of names in one value: single spaces, none at the ends. -/
def collapseSpaces (cs : List Char) : List Char :=
  List.intercalate [' ']
    ((cs.foldr (fun c (acc : List (List Char)) =>
      if c = ' ' then [] :: acc
      else match acc with
        | [] => [[c]]
        | w :: ws => (c :: w) :: ws) [[]]).filter (!·.isEmpty))

/-- The value of an attribute. -/
def value? (d : Doctype) (tokenized : Bool) (parts : List Part) : Option (List Char) :=
  (valueText d.isLenient (d.entities.length + 1) d.entities parts).map fun value =>
    if tokenized then collapseSpaces value else value

/-! ## Pieces of declarations -/

/-- The rest after white space. -/
def skipSpace (cs : List Char) : List Char := cs.dropWhile isSpace

/-- The rest after at least one character of white space. -/
def space? : List Char → Option (List Char)
  | c :: cs => if isSpace c then some (skipSpace cs) else none
  | [] => none

/-- The rest after a fixed text. -/
def after? (mark : List Char) (cs : List Char) : Option (List Char) :=
  if cs.take mark.length = mark then some (cs.drop mark.length) else none

/-- The characters before a fixed text and the rest after it. -/
def upTo? (mark : List Char) : List Char → Option (List Char × List Char)
  | [] => none
  | c :: cs =>
    if (c :: cs).take mark.length = mark then some ([], (c :: cs).drop mark.length)
    else (upTo? mark cs).map fun (found, rest) => (c :: found, rest)

/-- A name, which may hold a colon. -/
def name? (cs : List Char) : Option (List Char × List Char) :=
  let name := cs.takeWhile fun c => isNamePart c || c == ':'
  if isQualifiedName name then some (name, cs.drop name.length) else none

/-- A name without a colon. -/
def plainName? (cs : List Char) : Option (List Char × List Char) := do
  let (name, rest) ← name? cs
  if isName name then return (name, rest) else none

/-- A quoted text. -/
def quoted? : List Char → Option (List Char × List Char)
  | c :: cs => do
    guard (c = '"' ∨ c = '\'')
    let (text, rest) ← upTo? [c] cs
    if text.all isChar then return (text, rest) else none
  | [] => none

/-- The replacement text of an entity: character references are resolved, others stay. -/
def replacementFrom : Option (List Char) → List Char → Option (List Char)
  | none, [] => some []
  | some _, [] => none
  | none, c :: cs =>
    if c = '&' then replacementFrom (some []) cs
    else if c = '%' || !isChar c then none
    else (replacementFrom none cs).map (c :: ·)
  | some acc, c :: cs =>
    if c = ';' then
      let body := acc.reverse
      match reference body, body with
      | some (.referred d), '#' :: _ => (replacementFrom none cs).map (d :: ·)
      | some _, _ => (replacementFrom none cs).map (('&' :: body ++ [';']) ++ ·)
      | none, _ => none
    else replacementFrom (some (c :: acc)) cs

/-- Characters of a public identifier. -/
def isPublicChar (c : Char) : Bool :=
  CharClass.isAsciiAlphanumeric c || c == '\n' || " -'()+,./:=?;!*#@$_%".toList.contains c

/-- A public identifier after its keyword. -/
def publicId? (cs : List Char) : Option (List Char) := do
  let (text, rest) ← quoted? (← space? cs)
  if text.all isPublicChar then return rest else none

/-- The place of something kept elsewhere. -/
def place? (cs : List Char) : Option (List Char) := do
  let (_, rest) ← quoted? (← space? cs)
  return rest

/-- The name of something kept elsewhere. -/
def externalId? (cs : List Char) : Option (List Char) :=
  match after? "SYSTEM".toList cs with
  | some rest => place? rest
  | none => do place? (← publicId? (← after? "PUBLIC".toList cs))

/-- The end of a declaration. -/
def close? (cs : List Char) : Option (List Char) := after? ['>'] (skipSpace cs)

/-! ## Entities -/

/-- What follows the name in an entity declaration: the text, if it is an internal one. -/
def entityBody? (cs : List Char) : Option (Option (List Char) × List Char) :=
  match quoted? cs with
  | some (raw, rest) => do return (some raw, ← close? rest)
  | none => do return (none, ← close? (← externalId? cs))

/-- What follows the name in the declaration of a general entity, which need not be XML. -/
def generalBody? (cs : List Char) : Option (Option (List Char) × List Char) :=
  match entityBody? cs with
  | some found => some found
  | none => do
    let rest ← externalId? cs
    let (_, rest) ← plainName? (← space? (← after? "NDATA".toList (← space? rest)))
    return (none, ← close? rest)

/-- The declarations with an entity. -/
def addEntity (d : Doctype) (name : List Char) (body : Option (List Char)) : Option Doctype :=
  if d.passesOver then some d
  else
    match body with
    | none => some { d with entities := d.entities ++ [(name, .external)] }
    | some raw => (replacementFrom none raw).map fun replacement =>
      { d with entities := d.entities ++ [(name, .internal replacement)] }

/-- An entity declaration after its keyword; a parameter entity is only checked. -/
def entity? (d : Doctype) (cs : List Char) : Option (Doctype × List Char) := do
  match ← space? cs with
  | '%' :: more =>
    let (_, rest) ← plainName? (← space? more)
    let (body, rest) ← entityBody? (← space? rest)
    let _ ← d.addEntity [] body
    return (d, rest)
  | more =>
    let (name, rest) ← plainName? more
    let (body, rest) ← generalBody? (← space? rest)
    return (← d.addEntity name body, rest)

/-! ## Attributes -/

/-- The type of a declared attribute. -/
inductive AttributeType where
  | characters
  | identifier
  /-- A list of names, or one of some names. -/
  | tokens
  deriving DecidableEq, Repr

/-- Names in parentheses after the opening one; `fuel` bounds their number. -/
def choices? (isChoice : List Char → Bool) : Nat → List Char → Option (List Char)
  | 0, _ => none
  | fuel + 1, cs =>
    let cs := skipSpace cs
    let name := cs.takeWhile fun c => isNamePart c || c == ':'
    if !isChoice name then none
    else
      match skipSpace (cs.drop name.length) with
      | ')' :: rest => some rest
      | '|' :: rest => choices? isChoice fuel rest
      | _ => none

/-- The type of a declared attribute, and the rest. -/
def attributeType? (cs : List Char) : Option (AttributeType × List Char) :=
  match cs with
  | '(' :: rest => do return (.tokens, ← choices? (!·.isEmpty) (rest.length + 1) rest)
  | _ => do
    let (word, rest) ← plainName? cs
    let keyword := String.ofList word
    if keyword = "CDATA" then return (.characters, rest)
    else if keyword = "ID" then return (.identifier, rest)
    else if keyword = "NOTATION" then
      let rest ← after? ['('] (← space? rest)
      return (.tokens, ← choices? isName (rest.length + 1) rest)
    else if ["IDREF", "IDREFS", "ENTITY", "ENTITIES", "NMTOKEN", "NMTOKENS"].contains keyword then
      return (.tokens, rest)
    else none

/-- The default of a declared attribute as it is written, if it has one, and the rest. -/
def attributeDefault? (cs : List Char) : Option (Option (List Char) × List Char) :=
  match after? "#REQUIRED".toList cs, after? "#IMPLIED".toList cs, after? "#FIXED".toList cs with
  | some rest, _, _ => some (none, rest)
  | _, some rest, _ => some (none, rest)
  | _, _, some rest => do
    let (raw, rest) ← quoted? (← space? rest)
    return (some raw, rest)
  | _, _, _ => do
    let (raw, rest) ← quoted? cs
    return (some raw, rest)

/-- The declarations with an attribute. One that has a default, or is an identifier, counts only if
it is the first of its name. -/
def addAttribute (d : Doctype) (element name : List Char) (type : AttributeType)
    (default : Option (List Char)) : Option Doctype :=
  if d.passesOver then some d
  else do
    let tokenized := type != .characters
    let value ← match default with
      | none => pure none
      | some raw => do pure (some (← d.value? tokenized (← attributeValue raw)))
    let isKnown := d.attributes.any fun a => a.element == element && a.name == name
    if isKnown && (value.isSome || type = .identifier) then return d
    else return { d with attributes := d.attributes ++ [⟨element, name, tokenized, value⟩] }

/-- The attributes of a declaration after its element; `fuel` bounds their number. -/
def attributeDecls? (element : List Char) : Nat → Doctype → List Char →
    Option (Doctype × List Char)
  | 0, _, _ => none
  | fuel + 1, d, cs =>
    match close? cs with
    | some rest => some (d, rest)
    | none => do
      let (name, rest) ← name? (← space? cs)
      let (type, rest) ← attributeType? (← space? rest)
      let (default, rest) ← attributeDefault? (← space? rest)
      attributeDecls? element fuel (← d.addAttribute element name type default) rest

/-- An attribute list declaration after its keyword. -/
def attributeList? (d : Doctype) (cs : List Char) : Option (Doctype × List Char) := do
  let (element, rest) ← name? (← space? cs)
  attributeDecls? element (rest.length + 1) d rest

/-! ## Elements and notations -/

/-- The rest after a sign of repetition, if there is one. -/
def afterRepeat : List Char → List Char
  | c :: cs => if c = '?' ∨ c = '*' ∨ c = '+' then cs else c :: cs
  | [] => []

/-- The names that may stand beside text, up to the closing parenthesis. -/
def mixed? : Nat → List Char → Option (List Char)
  | 0, _ => none
  | fuel + 1, cs =>
    match skipSpace cs with
    | ')' :: '*' :: rest => some rest
    | '|' :: rest => do
      let (_, rest) ← name? (skipSpace rest)
      mixed? fuel rest
    | _ => none

/-- The content of an element after the opening parenthesis. `groups` holds for each open group what
joins its items; `wanted` says whether an item has to follow. -/
def children? : Nat → (groups : List (Option Char)) → (wanted : Bool) → List Char →
    Option (List Char)
  | 0, _, _, _ => none
  | fuel + 1, groups, true, cs =>
    match skipSpace cs with
    | '(' :: rest => children? fuel (none :: groups) true rest
    | rest => do
      let (_, rest) ← name? rest
      children? fuel groups false (afterRepeat rest)
  | fuel + 1, groups, false, cs =>
    match skipSpace cs, groups with
    | ')' :: rest, [_] => some (afterRepeat rest)
    | ')' :: rest, _ :: outer => children? fuel outer false (afterRepeat rest)
    | c :: rest, joint :: outer =>
      if (c = ',' || c = '|') && (joint.isNone || joint = some c) then
        children? fuel (some c :: outer) true rest
      else none
    | _, _ => none

/-- What an element may contain. -/
def contentModel? (cs : List Char) : Option (List Char) :=
  match cs with
  | '(' :: rest =>
    match after? "#PCDATA".toList (skipSpace rest) with
    | some more =>
      match skipSpace more with
      | ')' :: '*' :: rest => some rest
      | ')' :: rest => some rest
      | _ => mixed? (more.length + 1) more
    | none => children? (2 * rest.length + 2) [none] true rest
  | _ => do
    let (word, rest) ← name? cs
    if word = "EMPTY".toList || word = "ANY".toList then return rest else none

/-- An element declaration after its keyword. -/
def elementDecl? (cs : List Char) : Option (List Char) := do
  let (_, rest) ← name? (← space? cs)
  close? (← contentModel? (← space? rest))

/-- A notation declaration after its keyword. -/
def notationDecl? (cs : List Char) : Option (List Char) := do
  let (_, rest) ← plainName? (← space? cs)
  let rest ← space? rest
  match (externalId? rest).bind close? with
  | some rest => return rest
  | none => close? (← publicId? (← after? "PUBLIC".toList rest))

/-! ## The whole -/

/-- The declarations between the brackets; `fuel` bounds their number. -/
def declarations? : Nat → Doctype → List Char → Option (Doctype × List Char)
  | 0, _, _ => none
  | fuel + 1, d, cs =>
    let cs := skipSpace cs
    match after? "<!ENTITY".toList cs, after? "<!ATTLIST".toList cs, cs with
    | some rest, _, _ => do
      let (d, rest) ← d.entity? rest
      declarations? fuel d rest
    | _, some rest, _ => do
      let (d, rest) ← d.attributeList? rest
      declarations? fuel d rest
    | _, _, ']' :: rest => some (d, rest)
    | _, _, '%' :: rest => do
      let (_, rest) ← plainName? rest
      declarations? fuel { d with refersElsewhere := true, passesOver := !d.standalone }
        (← after? [';'] rest)
    | _, _, '<' :: '?' :: rest => do
      let (body, rest) ← upTo? ['?', '>'] rest
      let _ ← readInstruction body
      declarations? fuel d rest
    | _, _, '<' :: '!' :: '-' :: '-' :: rest => do
      let (body, rest) ← upTo? ['-', '-'] rest
      if body.all isChar then declarations? fuel d (← after? ['>'] rest) else none
    | _, _, _ =>
      match after? "<!ELEMENT".toList cs, after? "<!NOTATION".toList cs with
      | some rest, _ => do declarations? fuel d (← elementDecl? rest)
      | _, some rest => do declarations? fuel d (← notationDecl? rest)
      | _, _ => none

/-- A document type declaration after its keyword, and the rest of the document. -/
def read? (standalone : Bool) (cs : List Char) : Option (Doctype × List Char) := do
  let (_, rest) ← name? (← space? cs)
  let elsewhere := { Doctype.empty standalone with refersElsewhere := true }
  let spaced := skipSpace rest
  let (d, rest) ← match spaced with
    | 'S' :: _ => do pure (elsewhere, ← externalId? (← space? rest))
    | 'P' :: _ => do pure (elsewhere, ← externalId? (← space? rest))
    | _ => pure (.empty standalone, spaced)
  match skipSpace rest with
  | '[' :: more =>
    let (d, rest) ← declarations? (more.length + 1) d more
    return (d, ← close? rest)
  | _ => return (d, ← close? rest)

end Doctype

end Wadl.Xml
