import Wadl.Client.Config
import Wadl.Number.Binary64
import Wadl.Text.Base64
import Wadl.Text.Blank
import Wadl.Time.Text

/-!
# Declared types and literals

The values of a param have a declared type, usually one of XML Schema. `sourceTypeOf` is the type
that generated source gives them: an override for the full name or the local name, else the usual
one.

A default or a fixed value stands in a document as a text. `literalOf` reads it as its type asks for
and gives the `Literal` that stands for it in generated source; `Literal.source` is its text there.
-/

namespace Wadl

/-! ## Declared types -/

/-- The types of values that generated source knows. -/
inductive ValueKind where
  | text
  | integer
  | decimal
  | truth
  | date
  | dateTime
  | time
  | duration
  | bytes
  | anything
  deriving DecidableEq, Repr

/-- The name of a type in generated source. -/
def ValueKind.sourceType : ValueKind → String
  | text => "str"
  | integer => "int"
  | decimal => "float"
  | truth => "bool"
  | date => "datetime.date"
  | dateTime => "datetime.datetime"
  | time => "datetime.time"
  | duration => "datetime.timedelta"
  | bytes => "bytes"
  | anything => "Any"

/-- All types. -/
def ValueKind.all : List ValueKind :=
  [text, integer, decimal, truth, date, dateTime, time, duration, bytes, anything]

/-- The type with a name in generated source. -/
def ValueKind.ofSourceType? (sourceType : String) : Option ValueKind :=
  ValueKind.all.find? (·.sourceType = sourceType)

/-- The schema types with the kinds of their values. -/
def schemaTypes : List (String × ValueKind) :=
  (["string", "normalizedString", "token", "anyURI", "QName", "NCName", "Name", "NMTOKEN", "ID",
    "IDREF", "language"].map fun name => (name, .text)) ++
  (["int", "integer", "long", "short", "byte", "nonNegativeInteger", "positiveInteger",
    "negativeInteger", "nonPositiveInteger", "unsignedInt", "unsignedLong", "unsignedShort",
    "unsignedByte"].map fun name => (name, .integer)) ++
  [("float", .decimal), ("double", .decimal), ("decimal", .decimal), ("boolean", .truth),
    ("date", .date), ("dateTime", .dateTime), ("time", .time), ("duration", .duration),
    ("base64Binary", .bytes), ("hexBinary", .bytes), ("binary", .bytes), ("anyType", .anything),
    ("anySimpleType", .anything)]

/-- A name without what stands before its last colon. -/
def localTypeName (type : String) : String :=
  String.ofList (type.toList.reverse.takeWhile (· != ':')).reverse

/-- The type in generated source for a declared type, if there is one. -/
def sourceTypeOf (overrides : List (String × String)) (type : String) : Option String :=
  match overrides.lookup type with
  | some text => some text
  | none =>
    match overrides.lookup (localTypeName type) with
    | some text => some text
    | none => (schemaTypes.lookup (localTypeName type)).map (·.sourceType)

/-! ## Literals -/

/-- A value that generated source writes out. Days and times keep their text, which is read again
when the source runs. -/
inductive Literal where
  | integer (i : Int)
  | decimal (x : Binary64)
  | truth (b : Bool)
  | bytes (bytes : List UInt8)
  | date (text : String)
  | dateTime (text : String)
  | time (text : String)
  | text (s : String)
  deriving DecidableEq, Repr

/-- The text of a literal in generated source. -/
def Literal.source : Literal → String
  | integer i => toString i
  | decimal x => x.text
  | truth b => if b then "True" else "False"
  | bytes bs => quotedBytes bs
  | date t => "datetime.date.fromisoformat(" ++ quoted t ++ ")"
  | dateTime t => "datetime.datetime.fromisoformat(" ++ quoted t ++ ")"
  | time t => "datetime.time.fromisoformat(" ++ quoted t ++ ")"
  | text s => quoted s

/-- The truth of a text. -/
def readTruth (s : String) : Option Bool :=
  if s = "true" ∨ s = "1" then some true
  else if s = "false" ∨ s = "0" then some false
  else none

/-- The bytes of a text; the declared type says whether it is encoded. -/
def readBytes (type s : String) : Option (List UInt8) :=
  if localTypeName type = "base64Binary" then Base64.decode? s else some (utf8Bytes s)

/-- The literal for a text whose type in generated source is `sourceType` and whose declared type is
`type`, if the text can be read. -/
def literal? (value sourceType type : String) : Option Literal :=
  match ValueKind.ofSourceType? sourceType with
  | some .integer => (readInteger value).map .integer
  | some .decimal => (readBinary64 value).map .decimal
  | some .truth => (readTruth value).map .truth
  | some .bytes => (readBytes type value).map .bytes
  | some .date => (readDate value).map fun _ => .date value
  | some .dateTime => (readDateTime value).map fun _ => .dateTime value
  | some .time => (readClock value).map fun _ => .time value
  | _ => some (.text value)

/-- The literal for a text; `source` says where it stands. -/
def literalOf (value sourceType type source : String) : Except GenerationError Literal :=
  match literal? value sourceType type with
  | some l => .ok l
  | none => .error (.unsupportedType type source (some (.invalid value)))

/-- The type in generated source for a declared type; `source` says where it stands. -/
def mapType (overrides : List (String × String)) (type source : String) :
    Except GenerationError String :=
  match sourceTypeOf overrides type with
  | some text => .ok text
  | none => .error (.unsupportedType type source none)

end Wadl
