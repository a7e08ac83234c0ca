import Wadl.Charset.Basic
import Wadl.Xml.Doctype
import Wadl.Uri.Join
import Wadl.Xml.Tree

/-!
# Reading XML

`readText` and `readBytes` read a document into its root element, comments and processing
instructions included. The prolog may declare entities (`Xml.Doctype`); the content is cut into
tokens (`Xml.Markup`), references to declared entities are replaced, and `build` checks the nesting
and resolves the namespaces.
-/

namespace Wadl.Xml

/-- Why a document cannot be read. -/
inductive ReadError where
  | notWellFormed
  /-- The document names a charset that does not exist. -/
  | unknownCharset
  /-- The document names a charset with characters of several bytes. -/
  | multibyteCharset
  deriving DecidableEq, Repr

/-! ## Entities -/

/-- Whether the tags of some tokens are balanced, at the given depth to begin with. -/
def balanced : Nat → List Token → Bool
  | depth, [] => depth == 0
  | depth, .tag (.start _ _ false) :: rest => balanced (depth + 1) rest
  | depth, .tag (.finish _) :: rest =>
    match depth with
    | 0 => false
    | d + 1 => balanced d rest
  | depth, _ :: rest => balanced depth rest

/-- Whether a part refers to a declared entity. -/
def Part.isEntity : Part → Bool
  | .entity _ => true
  | _ => false

/-- The tokens of some content with its entities replaced; `fuel` exceeds the number of entities, so
it is never used up. -/
def expandTokens : Nat → List (List Char × Entity) → List Token → Option (List Token)
  | 0, _, _ => none
  | fuel + 1, entities, content =>
    (content.mapM fun (token : Token) => match token with
      | .text parts =>
        if parts.any Part.isEntity then
          (parts.mapM fun (part : Part) => match part with
            | .entity name =>
              match entities.lookup name with
              | some (.internal replacement) => do
                let inner ← expandTokens fuel (Doctype.inside name entities) (← tokens replacement)
                if balanced 0 inner then some inner else none
              | _ => none
            | part => some [.text [part]]).map List.flatten
        else some [.text parts]
      | token => some [token]).map List.flatten

/-! ## Namespaces -/

/-- The namespace that the prefix `xml` is bound to. -/
def xmlNamespace : String := "http://www.w3.org/XML/1998/namespace"

/-- The namespace of namespace declarations. -/
def xmlnsNamespace : String := "http://www.w3.org/2000/xmlns/"

/-- Prefixes in scope, innermost first, with their namespaces; the empty prefix is the default. -/
abbrev Bindings := List (List Char × String)

/-- The part before the colon of a name, empty without one, and the part after it. -/
def splitName (name : List Char) : List Char × List Char :=
  match name.dropWhile (· != ':') with
  | _ :: label => (name.takeWhile (· != ':'), label)
  | [] => ([], name)

/-- The prefix that an attribute declares, if it is a namespace declaration. -/
def declaredPrefix? (name : List Char) : Option (List Char) :=
  match splitName name with
  | ([], label) => if label = "xmlns".toList then some [] else none
  | (mark, label) => if mark = "xmlns".toList then some label else none

/-- Whether a namespace may be declared for a prefix. -/
def isDeclarable (mark : List Char) (space : String) : Bool :=
  mark != "xmlns".toList &&
    (mark == "xml".toList) == (space == xmlNamespace) &&
    space != xmlnsNamespace && (mark.isEmpty || space != "") && !space.toList.contains '\x7d'

/-- The bindings inside an element with the given attributes. -/
def declare : Bindings → List (List Char × String) → Option Bindings
  | bindings, [] => some bindings
  | bindings, (name, value) :: rest =>
    match declaredPrefix? name with
    | some mark =>
      if isDeclarable mark value then declare ((mark, value) :: bindings) rest else none
    | none => declare bindings rest

/-- The namespace of a prefix. -/
def bound? (bindings : Bindings) (mark : List Char) : Option String :=
  if mark = "xml".toList then some xmlNamespace else bindings.lookup mark

/-- The name of an element. -/
def elementName? (bindings : Bindings) (name : List Char) : Option Name :=
  let (mark, label) := splitName name
  if mark.isEmpty then
    let space := (bindings.lookup []).bind fun s => if s = "" then none else some s
    some ⟨space, String.ofList label⟩
  else (bound? bindings mark).map fun space => ⟨some space, String.ofList label⟩

/-- The name of an attribute. -/
def attributeName? (bindings : Bindings) (name : List Char) : Option Name :=
  let (mark, label) := splitName name
  if mark.isEmpty then some ⟨none, String.ofList label⟩
  else (bound? bindings mark).map fun space => ⟨some space, String.ofList label⟩

/-- Whether all names of a list are different. -/
def allDistinct {α : Type} [BEq α] : List α → Bool
  | [] => true
  | a :: rest => !rest.contains a && allDistinct rest

/-- The tag of an element and the bindings inside it. -/
def resolveTag (bindings : Bindings) (name : List Char) (attributes : List (List Char × String)) :
    Option (Tag × Bindings) := do
  let inner ← declare bindings attributes
  let own := attributes.filter fun a => (declaredPrefix? a.1).isNone
  let resolved ← own.mapM fun (n, v) => (attributeName? inner n).map fun m => (m, v)
  if allDistinct (attributes.map (·.1)) && allDistinct (resolved.map (·.1)) then
    return (⟨← elementName? inner name, resolved⟩, inner)
  else none

/-! ## The tree -/

/-- The values of an element's attributes, declared defaults included. -/
def attributeValues (d : Doctype) (element : List Char) (attributes : List RawAttribute) :
    Option (List (List Char × String)) := do
  let decls := d.attributes.filter fun a => a.element == element
  let given ← attributes.mapM fun a => do
    let tokenized := match decls.find? (·.name == a.name) with
      | some decl => decl.tokenized
      | none => false
    return (a.name, String.ofList (← d.value? tokenized a.value))
  let missing := decls.filter fun decl => !(attributes.any fun a => a.name == decl.name)
  return given ++ missing.filterMap fun decl =>
    decl.default.map fun value => (decl.name, String.ofList value)

/-- An element whose end is not met yet; its content is kept last piece first. -/
structure OpenElement where
  rawName : List Char
  tag : Tag
  bindings : Bindings
  content : List Node

/-- A piece added to a content that is kept last piece first; texts become one. -/
def addNode (node : Node) (content : List Node) : List Node :=
  match node, content with
  | .text s, .text t :: rest => .text (t ++ s) :: rest
  | .text s, rest => if s.isEmpty then rest else .text s :: rest
  | n, rest => n :: rest

/-- The text of character data. -/
def partsText (parts : List Part) : String :=
  String.ofList (parts.map fun
    | .plain c => c
    | .referred c => c
    | .entity _ => ' ')

/-- Whether a token may follow the root element. -/
def isTrailing : Token → Bool
  | .text parts => parts.all fun
    | .plain c => isSpace c
    | _ => false
  | .comment _ => true
  | .instruction _ => true
  | _ => false

/-- A finished element put into the one around it, or the root with what has to follow it. -/
def finish (node : Node) (stack : List OpenElement) : List OpenElement ⊕ Node :=
  match stack with
  | [] => .inr node
  | e :: rest => .inl ({ e with content := addNode node e.content } :: rest)

/-- Builds the tree from tokens; `stack` holds the elements that are open, innermost first. -/
def build (d : Doctype) : List OpenElement → List Token → Option Node
  | _, [] => none
  | stack, .tag (.start name attributes empty) :: rest => do
    let values ← attributeValues d name attributes
    let outer := match stack with
      | [] => []
      | e :: _ => e.bindings
    let (tag, bindings) ← resolveTag outer name values
    if empty then
      match finish (.element tag []) stack with
      | .inl stack => build d stack rest
      | .inr root => if rest.all isTrailing then some root else none
    else build d (⟨name, tag, bindings, []⟩ :: stack) rest
  | e :: stack, .tag (.finish name) :: rest =>
    if name = e.rawName then
      match finish (.element e.tag e.content.reverse) stack with
      | .inl stack => build d stack rest
      | .inr root => if rest.all isTrailing then some root else none
    else none
  | e :: stack, token :: rest =>
    let node := match token with
      | .text parts => Node.text (partsText parts)
      | .literal cs => .text (String.ofList cs)
      | .comment cs => .comment (String.ofList cs)
      | .instruction cs => .instruction (String.ofList cs)
      | .tag _ => .text ""
    build d ({ e with content := addNode node e.content } :: stack) rest
  | [], _ :: _ => none

/-! ## Documents -/

/-- The pseudo-attributes of an XML declaration, in order. -/
def declarationFields : List RawAttribute → Option (List (String × String))
  | [] => some []
  | a :: rest => do
    let value ← a.value.mapM fun
      | .plain c => some c
      | _ => none
    return (String.ofList a.name, String.ofList value) :: (← declarationFields rest)

/-- The characters of a value in an XML declaration. -/
def isFieldChar (c : Char) : Bool :=
  CharClass.isAsciiAlphanumeric c || c == '.' || c == '-' || c == '_'

/-- What an XML declaration says. -/
structure Declaration where
  charset : Option String := none
  standalone : Bool := false
  deriving DecidableEq, Repr

/-- The name of a charset. -/
def charsetField? (s : String) : Option String :=
  match s.toList with
  | c :: _ => if CharClass.isAsciiLetter c then some s else none
  | [] => none

/-- Whether a document stands alone. -/
def standaloneField? (s : String) : Option Bool :=
  if s = "yes" then some true else if s = "no" then some false else none

/-- What the fields of an XML declaration say, which stand in a fixed order. -/
def ofFields? (fields : List (String × String)) : Option Declaration :=
  let wellFormed := fields.all fun (_, v) => v.toList.all isFieldChar
  if !wellFormed then none
  else match fields with
    | [("version", _)] => some {}
    | [("version", _), ("encoding", e)] => do return { charset := ← charsetField? e }
    | [("version", _), ("standalone", s)] => do return { standalone := ← standaloneField? s }
    | [("version", _), ("encoding", e), ("standalone", s)] => do
      return { charset := ← charsetField? e, standalone := ← standaloneField? s }
    | _ => none

/-- What the XML declaration says, if there is one, and the rest of the document. -/
def declaration? (cs : List Char) : Option (Declaration × List Char) :=
  match Doctype.after? "<?xml".toList cs with
  | some (c :: more) =>
    if isSpace c then do
      let (body, rest) ← Doctype.upTo? ['?', '>'] (c :: more)
      let (attributes, empty) ← attributesFrom (.between false) body
      if empty then none
      else return (← ofFields? (← declarationFields attributes), rest)
    else some ({}, cs)
  | _ => some ({}, cs)

/-- Passes over comments, instructions and white space before the root, and reads a document type
declaration; `fuel` bounds their number. -/
def prolog? (standalone : Bool) :
    Nat → Option Doctype → List Char → Option (Doctype × List Char)
  | 0, _, _ => none
  | fuel + 1, d, cs =>
    let cs := Doctype.skipSpace cs
    match cs with
    | '<' :: '?' :: rest => do
      let (body, rest) ← Doctype.upTo? ['?', '>'] rest
      let _ ← readInstruction body
      prolog? standalone fuel d rest
    | '<' :: '!' :: '-' :: '-' :: rest => do
      let (body, rest) ← Doctype.upTo? ['-', '-'] rest
      if body.all isChar then prolog? standalone fuel d (← Doctype.after? ['>'] rest) else none
    | _ =>
      match d, Doctype.after? "<!DOCTYPE".toList cs with
      | none, some rest => do
        let (found, rest) ← Doctype.read? standalone rest
        prolog? standalone fuel (some found) rest
      | some _, some _ => none
      | _, none => some (d.getD (.empty standalone), cs)

/-- The root element of a document after its XML declaration. -/
def readAfterDeclaration (standalone : Bool) (cs : List Char) : Option Node := do
  let (d, rest) ← prolog? standalone (cs.length + 1) none cs
  let content ← expandTokens (d.entities.length + 1) d.entities (← tokens rest)
  build d [] content

/-- A document without its byte order mark. -/
def withoutMark : List Char → List Char
  | c :: cs => if c.toNat = 0xfeff then cs else c :: cs
  | [] => []

/-- The root element of a document given as text; the charset it names does not matter. -/
def readText (text : String) : Option Node := do
  let cs := Text.unifyLineEnds (withoutMark text.toList)
  let (declared, rest) ← declaration? cs
  readAfterDeclaration declared.standalone rest

/-- The charset that the first bytes of a document show, with the bytes after the mark. -/
def detect : List UInt8 → Charset × List UInt8
  | 0xef :: 0xbb :: 0xbf :: rest => (.utf8, rest)
  | 0xff :: 0xfe :: rest => (.utf16 (some .little), rest)
  | 0xfe :: 0xff :: rest => (.utf16 (some .big), rest)
  | 0 :: b :: rest => (.utf16 (some .big), 0 :: b :: rest)
  | b :: 0 :: rest => (.utf16 (some .little), b :: 0 :: rest)
  | bytes => (.utf8, bytes)

/-- The characters of a document; one that may not occur stands for each malformed piece. -/
def charsOf (charset : Charset) (bytes : List UInt8) : List Char :=
  (charset.read bytes).map fun c => c.getD (Char.ofNat 0)

/-- All bytes, in their order. -/
def allBytes : List UInt8 := (List.range 0x100).map UInt8.ofNat

/-- Whether a character below 0x80 has to be the byte of its own number: letters, digits, white
space and what markup is made of. -/
def isFixed (c : Char) : Bool :=
  CharClass.isAsciiAlphanumeric c || "\t\n\r !\"#%&\x27()*+,\x2d./:;<=>?[]_|".toList.contains c

/-- Whether documents can be read in a charset of single bytes. -/
def isReadable (chars : List Char) : Bool :=
  chars.zipIdx.all fun (c, n) =>
    c.toNat ≤ 0xffff && (c.toNat == n || !isFixed c && !isFixed (Char.ofNat n))

/-- The charset in which single bytes are read as a document names it: its characters are those that
the codec finds in all bytes. -/
def byteCharset (codecs : Codecs) (name : String) : Except ReadError Charset :=
  match codecs.decode name allBytes with
  | .error .unknown => .error .unknownCharset
  | .error .refused => .error .multibyteCharset
  | .ok chars =>
    if chars.length ≠ 0x100 then .error .multibyteCharset
    else if isReadable chars.toList then .ok (.bytes chars.toList)
    else .error .notWellFormed

/-- The charset of a document that shows `shown` and names `name`. -/
def charsetFor (codecs : Codecs) (shown : Charset) (name : String) : Except ReadError Charset :=
  let key := name.toList.map Uri.lowerAscii
  let wide := shown != .utf8
  if key = "utf-8".toList then if wide then .error .notWellFormed else .ok shown
  else if key = "iso-8859-1".toList then if wide then .error .notWellFormed else .ok .latin1
  else if key = "us-ascii".toList then if wide then .error .notWellFormed else .ok .ascii
  else if key = "utf-16".toList then if wide then .ok shown else .error .notWellFormed
  else if key = "utf-16le".toList then
    if shown = .utf16 (some .little) then .ok shown else .error .notWellFormed
  else if key = "utf-16be".toList then
    if shown = .utf16 (some .big) then .ok shown else .error .notWellFormed
  else byteCharset codecs name

/-- The root element of a document given as bytes. -/
def readBytes (bytes : List UInt8) (codecs : Codecs := .standard) : Except ReadError Node := do
  let (shown, rest) := detect bytes
  let cs := Text.unifyLineEnds (charsOf shown rest)
  match declaration? cs with
  | none => .error .notWellFormed
  | some (declared, afterDeclaration) =>
    let chars ← match declared.charset with
      | none => pure afterDeclaration
      | some n => do
        let charset ← charsetFor codecs shown n
        if charset = shown then pure afterDeclaration
        else
          match declaration? (Text.unifyLineEnds (charsOf charset rest)) with
          | some (_, again) => pure again
          | none => .error .notWellFormed
    match readAfterDeclaration declared.standalone chars with
    | some root => .ok root
    | none => .error .notWellFormed

end Wadl.Xml
