import Wadl.Text.Quoted
import Wadl.Uri.Join
import Wadl.Xml.Reader

/-!
# What is wrong with a document

A `DocumentError` says why a document is no description. Its message ends with the path of the
element where the fault is, if there is one.
-/

namespace Wadl

/-- A fault in the structure of a document. -/
inductive Malformation where
  | notWellFormed
  | wrongRoot (label : String)
  /-- An element stands where it may not. -/
  | misplaced (child parent : String)
  | unrecognized (label : String)
  | invalidBoolean (value attr : String)
  | unknownStyle (style : String)
  | styleNotAllowed (style location : String)
  | invalidStatus (status : String)
  | severalRequests
  /-- No template param has the name of a placeholder. -/
  | undeclaredPlaceholder (name : String)
  deriving DecidableEq, Repr

/-- The text of a fault. -/
def Malformation.message : Malformation → String
  | notWellFormed => "invalid XML"
  | wrongRoot label => "root element must be <application>, got <" ++ label ++ ">"
  | misplaced child parent => "<" ++ child ++ "> is not allowed inside <" ++ parent ++ ">"
  | unrecognized label => "unrecognized element <" ++ label ++ ">"
  | invalidBoolean value attr =>
    "invalid boolean " ++ quoted value ++ " for attribute " ++ quoted attr
  | unknownStyle style => "unknown param style " ++ quoted style
  | styleNotAllowed style location =>
    "param style " ++ quoted style ++ " is not allowed in <" ++ location ++ ">"
  | invalidStatus status => "invalid status " ++ quoted status
  | severalRequests => "a method can have at most one <request>"
  | undeclaredPlaceholder name =>
    "path placeholder \x7b" ++ name ++ "\x7d has no template param"

/-- Where identifiers have to differ. -/
inductive UniqueScope where
  | id
  | paramName
  | optionValue
  | methodId
  /-- Among the top-level definitions of one kind. -/
  | topLevel (kind : String)
  deriving DecidableEq, Repr

/-- The word for what has to differ. -/
def UniqueScope.word : UniqueScope → String
  | id => "id"
  | paramName => "param name"
  | optionValue => "option value"
  | methodId => "method id"
  | topLevel kind => kind ++ " id"

/-- The reason why a document is no description. -/
inductive DocumentError where
  | malformed (fault : Malformation) (path : List String)
  | missingAttribute (element attr : String) (path : List String)
  | duplicateId (identifier : String) (scope : UniqueScope) (path : List String)
  /-- A reference is no URI. -/
  | badUri (error : UriError)
  /-- The document names a charset that does not exist. -/
  | unknownCharset
  /-- The document names a charset with characters of several bytes. -/
  | multibyteCharset
  deriving DecidableEq, Repr

namespace DocumentError

/-- A text with the path of an element. -/
def located (text : String) (path : List String) : String :=
  if path.isEmpty then text else text ++ " (at " ++ "/".intercalate path ++ ")"

/-- The text of an error. -/
def message : DocumentError → String
  | malformed fault path => located fault.message path
  | missingAttribute element attr path =>
    located ("<" ++ element ++ "> is missing required attribute " ++ quoted attr) path
  | duplicateId identifier scope path =>
    located ("duplicate " ++ scope.word ++ " " ++ quoted identifier) path
  | badUri _ => "a reference is no URI"
  | unknownCharset => "unknown encoding"
  | multibyteCharset => "multi-byte encodings are not supported"

/-- The error of a document that cannot be read. -/
def ofRead : Xml.ReadError → DocumentError
  | .notWellFormed => malformed .notWellFormed []
  | .unknownCharset => unknownCharset
  | .multibyteCharset => multibyteCharset

end DocumentError

end Wadl
