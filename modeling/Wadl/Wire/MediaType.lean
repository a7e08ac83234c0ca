import Wadl.Text.Blank
import Wadl.Text.Case

/-!
# Media types
-/

namespace Wadl

namespace MediaType

/-- A media type without its parameters and in small letters. -/
def essence (mediaType : String) : String := Case.lower (trimmed (cutAt ';' mediaType).1)

/-- Whether a media type is the one of JSON or built on it. -/
def isJson (mediaType : String) : Bool :=
  essence mediaType == "application/json" || (essence mediaType).endsWith "+json"

/-- Whether a media type is one of XML or built on it. -/
def isXml (mediaType : String) : Bool :=
  (essence mediaType).endsWith "/xml" || (essence mediaType).endsWith "+xml"

/-- Whether a media type begins as those of text do. -/
def startsAsText (mediaType : String) : Bool := mediaType.startsWith "text/"

/-- Whether a declared media type, which may have a wildcard, covers another one. -/
def covers (declared actual : String) : Bool :=
  let expected := essence declared
  let actual := essence actual
  if expected == "*/*" || expected == actual then true
  else if expected.endsWith "/*" then actual.startsWith (expected.dropEnd 1).toString
  else false

end MediaType

/-- What a body without declared fields is read as. -/
inductive RawBody where
  /-- A value of JSON. -/
  | value
  | text
  | bytes
  deriving DecidableEq, Repr

/-- The type of a body in generated source. -/
def RawBody.sourceType : RawBody → String
  | value => "Any"
  | text => "str"
  | bytes => "bytes"

/-- What a body of a declared media type is promised to be. -/
def RawBody.ofMediaType (mediaType : Option String) : RawBody :=
  match mediaType with
  | none => .value
  | some m =>
    if MediaType.isJson m then .value
    else if MediaType.startsAsText m || MediaType.isXml m then .text
    else .bytes

end Wadl
