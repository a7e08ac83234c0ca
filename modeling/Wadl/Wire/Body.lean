import Wadl.Json.Reader
import Wadl.Json.Writer
import Wadl.Wire.Answer
import Wadl.Wire.Record
import Wadl.Xml.Reader
import Wadl.Xml.Writer

/-!
# Bodies

`encodeBody` writes the body of a request and `decodeBody` reads that of an answer. Records go
through JSON, XML or forms, as the media type says; other values go through JSON, or are text or
bytes. What is done with records as a whole is left to `Models`: `Models.standard` are those of the
types that are known here.
-/

namespace Wadl

/-- A body of a request. -/
inductive Body where
  | value (v : Value)
  | record (r : Record)
  deriving Repr

/-! ## Values and JSON -/

namespace Value

mutual

/-- A value of JSON as a value. -/
def ofJson : Json → Value
  | .null => none
  | .bool b => bool b
  | .int i => int i
  | .float x => float x
  | .str s => text s
  | .arr items => list (ofJsonList items)
  | .obj members => dict (ofJsonMembers members)

/-- Values of JSON as values. -/
def ofJsonList : List Json → List Value
  | [] => []
  | j :: rest => ofJson j :: ofJsonList rest

/-- Members of an object of JSON as entries. -/
def ofJsonMembers : List (String × Json) → List (String × Value)
  | [] => []
  | (name, j) :: rest => (name, ofJson j) :: ofJsonMembers rest

end

mutual

/-- A value as JSON; what JSON has no form for becomes a text. -/
def toJson : Value → Except WireError Json
  | none => .ok .null
  | bool b => .ok (.bool b)
  | int i => if Numeral.isWritable i then .ok (.int i) else .error .longNumber
  | float x => .ok (.float x)
  | text s => .ok (.str s)
  | list items => do return .arr (← toJsonList items)
  | tuple items => do return .arr (← toJsonList items)
  | dict entries => do return .obj (← toJsonEntries entries)
  | v => do return .str (← wireText v)

/-- Values as JSON. -/
def toJsonList : List Value → Except WireError (List Json)
  | [] => .ok []
  | v :: rest => do return (← toJson v) :: (← toJsonList rest)

/-- Entries as members of an object of JSON. -/
def toJsonEntries : List (String × Value) → Except WireError (List (String × Json))
  | [] => .ok []
  | (name, v) :: rest => do return (name, ← toJson v) :: (← toJsonEntries rest)

end

end Value

/-! ## Records -/

namespace Record

/-- A single value of a field as JSON: a member of an enum is its value, and numbers may have any
size. -/
def itemJson (v : Value) : Except WireError Json :=
  match v.plain with
  | .int i => .ok (.int i)
  | v => v.toJson

/-- A value of a field as JSON. -/
def fieldJson : Value → Except WireError Json
  | .list items => do return .arr (← items.mapM itemJson)
  | v => itemJson v

/-- A record as JSON. -/
def toJson (r : Record) : Except WireError Json := do
  return .obj (← r.wireEntries.mapM fun (name, v) => do return (name, ← fieldJson v))

end Record

/-- The most arrays and objects that can be open at once in the JSON of a record. -/
def recordDepth : Nat := 200

/-- The value of the JSON of a record. -/
def readRecordJson (bytes : List UInt8) : Except WireError Json :=
  let fault : WireError := .invalid [([], .malformedJson)]
  match Charset.utf8.decode? bytes with
  | none => .error fault
  | some s =>
    match Json.readNested recordDepth s with
    | .ok j => .ok j
    | .error _ => .error fault

/-! ## Models -/

/-- What records are validated and written with. -/
structure Models where
  /-- The record that a value makes. -/
  validate : RecordType → Value → Except WireError Record
  /-- The record that a JSON text in bytes makes. -/
  validateJson : RecordType → List UInt8 → Except WireError Record
  /-- The values of a record by their names on the wire, without those that are nothing. -/
  dump : Record → List (String × Value)
  /-- A record as a JSON text. -/
  dumpJson : Record → Except WireError String

/-- The models of the types that are known here. -/
def Models.standard : Models where
  validate := RecordType.validate
  validateJson t bytes := do t.validate (.ofJson (← readRecordJson bytes))
  dump := Record.wireEntries
  dumpJson r := do return (← r.toJson).write Json.Style.compact

namespace Record

/-- The texts of a value with a name: for a list, one for each item. -/
def namedTexts (name : String) (v : Value) : Except WireError (List (String × String)) :=
  let items := match v with
    | .list vs => vs
    | v => [v]
  items.mapM fun item => do return (name, ← wireText item)

/-- The names and texts of a record. -/
def texts (models : Models) (r : Record) : Except WireError (List (String × String)) := do
  return (← (models.dump r).mapM fun (name, v) => namedTexts name v).flatten

/-- A record as an XML element, with an element for each text. -/
def toXml (models : Models) (r : Record) : Except WireError Xml.Node := do
  let element (name : String) (content : List Xml.Node) : Xml.Node :=
    .element ⟨.ofText name, []⟩ content
  let children := (← r.texts models).map fun (name, text) =>
    element name (if text.isEmpty then [] else [.text text])
  return element r.type.name children

end Record

/-- The bytes of a body of a request, if there is one. -/
def encodeBody (body : Body) (mediaType : Option String) (models : Models := .standard) :
    Except WireError (Option (List UInt8)) := do
  match body with
  | .value .none => return none
  | .value (.bytes bs) => return some bs
  | .value (.text s) => return some (utf8Bytes s)
  | .value v => return some (utf8Bytes ((← v.toJson).write Json.Style.spaced))
  | .record r =>
    let m := mediaType.getD ""
    if MediaType.essence m =
      formMediaType then return some (utf8Bytes (formEncoded (← r.texts models)))
    else if MediaType.isXml m then return some (utf8Bytes (← r.toXml models).written)
    else return some (utf8Bytes (← models.dumpJson r))

/-! ## Texts by their names -/

/-- Texts by their names; those of one name stand together. -/
abbrev NamedTexts := List (String × List String)

/-- Names and texts, with those of one name together, in the order in which the names come. -/
def groupTexts (pairs : List (String × String)) : NamedTexts :=
  (pairs.map (·.1)).eraseDups.map fun name =>
    (name, (pairs.filter (·.1 = name)).map (·.2))

/-- The entries for the fields of a record: all texts for a list, the first one for others. -/
def RecordType.entriesOf (t : RecordType) (texts : NamedTexts) : List (String × Value) :=
  t.fields.filterMap fun f =>
    match texts.lookup f.key with
    | some (first :: rest) =>
      some (f.key, if f.isList then .list ((first :: rest).map .text) else .text first)
    | _ => none

/-- The part of a name after its namespace. -/
def labelOf (name : Xml.Name) : String :=
  let s := name.text.toList.reverse.takeWhile (· != '\x7d')
  String.ofList s.reverse

/-- The names and texts of an XML element: its attributes, then the elements in it. -/
def xmlTexts : Xml.Node → List (String × String)
  | .element tag content =>
    tag.attributes.map (fun (name, value) => (labelOf name, value)) ++
      content.filterMap fun
        | .element tag content => some (labelOf tag.name, Xml.leadingText content)
        | _ => none
  | _ => []

/-! ## Decoding -/

/-- What is read from the body of an answer. -/
inductive Decoded where
  | value (v : Value)
  | record (r : Record)
  deriving Repr

/-- The charset that the first bytes of a JSON text show, and whether a mark stands before it. -/
def jsonCharset : List UInt8 → Charset
  | 0 :: 0 :: 0xfe :: 0xff :: _ => .utf32 none
  | 0xff :: 0xfe :: 0 :: 0 :: _ => .utf32 none
  | 0xfe :: 0xff :: _ => .utf16 none
  | 0xff :: 0xfe :: _ => .utf16 none
  | 0xef :: 0xbb :: 0xbf :: _ => .utf8Marked
  | 0 :: b :: _ :: _ :: _ => if b = 0 then .utf32 (some .big) else .utf16 (some .big)
  | _ :: 0 :: c :: d :: _ => if c = 0 && d = 0 then .utf32 (some .little) else .utf16 (some .little)
  | [0, _] => .utf16 (some .big)
  | [_, 0] => .utf16 (some .little)
  | _ => .utf8

/-- The value of a JSON text in bytes. -/
def readJsonBytes (bytes : List UInt8) : Except WireError Json :=
  match (jsonCharset bytes).decode? bytes with
  | none => .error .undecodable
  | some s =>
    match Json.read s with
    | .ok j => .ok j
    | .error .longNumber => .error .longNumber
    | .error _ => .error .malformedJson

/-- The root element of a body. -/
def readXmlBytes (codecs : Codecs) (bytes : List UInt8) : Except WireError Xml.Node :=
  match Xml.readBytes bytes codecs with
  | .ok node => .ok node.withoutMarks
  | .error .notWellFormed => .error .malformedXml
  | .error .unknownCharset => .error .unknownCharset
  | .error .multibyteCharset => .error .multibyteCharset

/-- The value of a body: one of JSON, a text, or its bytes, as the media type says. -/
def decodeValue (codecs : Codecs) (a : Answer) : Except WireError Value :=
  let m := a.mediaType.getD ""
  if MediaType.isJson m then
    if a.body.isEmpty then .ok .none else .ofJson <$> readJsonBytes a.body
  else if MediaType.startsAsText m || MediaType.isXml m then .text <$> a.text codecs
  else .ok (.bytes a.body)

/-- The record of a body. -/
def decodeRecord (codecs : Codecs) (models : Models) (a : Answer) (t : RecordType) :
    Except WireError Record := do
  let m := a.mediaType.getD ""
  if MediaType.isXml m then
    let root ← readXmlBytes codecs a.body
    models.validate t (.dict (t.entriesOf (groupTexts (xmlTexts root))))
  else if MediaType.essence m = formMediaType then
    let text ← a.text codecs
    models.validate t (.dict (t.entriesOf (groupTexts (formPairs false text))))
  else models.validateJson t a.body

/-- The body of an answer, as a record if a type is given. -/
def decodeBody (a : Answer) (type? : Option RecordType) (codecs : Codecs := .standard)
    (models : Models := .standard) : Except WireError Decoded :=
  match type? with
  | none => .value <$> decodeValue codecs a
  | some t => .record <$> decodeRecord codecs models a t

end Wadl
