import Wadl.Wire.MediaType
import Wadl.Wire.Url

/-!
# Headers and answers of services

Headers keep the order in which they were set, and `buildHeaders` gives those of a request. An
`Answer` has a status, headers and a body. `Answer.text` reads the body as text, in the charset that
its media type names; `Answer.fits` says whether it has a declared media type.
-/

namespace Wadl

/-! ## Headers -/

/-- Headers by their names, in the order in which they were set. -/
abbrev Headers := List (String × String)

namespace Headers

/-- Headers in which one has a value. -/
def set (headers : Headers) (name value : String) : Headers :=
  if headers.any (·.1 = name) then headers.map fun h => if h.1 = name then (name, value) else h
  else headers ++ [(name, value)]

/-- The value of the first header with a name, whatever the letter case. -/
def get? (headers : Headers) (name : String) : Option String :=
  (headers.find? fun h => Case.lower h.1 = Case.lower name).map (·.2)

end Headers

/-- The text of a header; the values of a list are joined. -/
def headerText : Value → Except WireError String
  | .list vs => return ", ".intercalate (← vs.mapM wireText)
  | .tuple vs => return ", ".intercalate (← vs.mapM wireText)
  | v => wireText v

/-- Headers for the values that are given. -/
def valueHeaders : Headers → NamedValues → Except WireError Headers
  | headers, [] => .ok headers
  | headers, (name, value) :: rest => do
    if value.isNone then valueHeaders headers rest
    else valueHeaders (headers.set name (← headerText value)) rest

/-- The headers of a request: those given, the media types that are asked for, and that of the
body. -/
def buildHeaders (values : NamedValues) (accept : List String) (contentType : Option String) :
    Except WireError Headers := do
  let headers ← valueHeaders [] values
  let headers := if accept.isEmpty then headers else headers.set "Accept" (", ".intercalate accept)
  match contentType with
  | some t => return if t.isEmpty then headers else headers.set "Content-Type" t
  | none => return headers

/-! ## Answers -/

/-- What a service answers to a request. -/
structure Answer where
  status : Int := 200
  headers : Headers := []
  body : List UInt8 := []
  deriving DecidableEq, Repr

/-- The name of a charset in a media type: what follows the first `charset=` that a name follows. -/
def charsetName? : List Char → Option String
  | [] => none
  | c :: cs =>
    let isNameChar (c : Char) := CharClass.isAlphanumeric c || c == '_' || c == '-'
    let mark := "charset=".toList
    if mark.isPrefixOf (c :: cs) then
      let name := ((c :: cs).drop mark.length).takeWhile isNameChar
      if name.isEmpty then charsetName? cs else some (String.ofList name)
    else charsetName? cs

/-- Bytes as text in a charset; pieces that are not assigned are replaced. No bytes are the empty
text in any charset. -/
def textInCharset (codecs : Codecs) (name : String) (bytes : List UInt8) :
    Except WireError String :=
  if bytes.isEmpty then .ok ""
  else
    match codecs.decode name bytes with
    | .ok text => .ok text
    | .error .unknown => .error .unknownCharset
    | .error .refused => .error .undecodable

namespace Answer

/-- The media type of the body. -/
def mediaType (a : Answer) : Option String := a.headers.get? "content-type"

/-- The body as text. -/
def text (a : Answer) (codecs : Codecs := .standard) : Except WireError String :=
  textInCharset codecs ((charsetName? (a.mediaType.getD "").toList).getD "utf-8") a.body

/-- Whether an answer has a declared media type. One without a media type fits all. -/
def fits (a : Answer) (declared : Option String) : Bool :=
  match declared, a.mediaType with
  | some d, some m => m.isEmpty || MediaType.covers d m
  | _, _ => true

end Answer

end Wadl
