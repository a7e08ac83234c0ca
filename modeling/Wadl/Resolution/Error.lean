import Wadl.Document.Error
import Wadl.Document.Model

/-!
# Why references cannot be followed

A `LoadError` says why a document cannot be had, and a `ResolveError` why a reference leads nowhere.
-/

namespace Wadl

/-- What kept a document from being loaded. -/
inductive LoadCause where
  | notWellFormed
  | noSuchDocument
  /-- There is nothing to load documents with. -/
  | notConfigured
  | unsupportedScheme (scheme : String)
  /-- The system or the server refused, with a text. -/
  | refused (text : String)
  deriving DecidableEq, Repr

/-- The text of a cause. -/
def LoadCause.message : LoadCause → String
  | notWellFormed => "invalid XML"
  | noSuchDocument => "no such document"
  | notConfigured => "no document loader configured"
  | unsupportedScheme scheme => "unsupported scheme " ++ quoted scheme
  | refused text => text

/-- Why a document cannot be had. -/
inductive LoadError where
  | failed (uri : String) (cause : LoadCause)
  /-- What the document is asked for by is no URI, or no name of a file. -/
  | badUri
  /-- What the document is asked for by is no address of a service. -/
  | badAddress
  /-- The client that is to ask for the document is closed. -/
  | closed
  /-- The document names a charset that does not exist. -/
  | unknownCharset
  /-- The document names a charset with characters of several bytes. -/
  | multibyteCharset
  deriving DecidableEq, Repr

namespace LoadError

/-- The text of an error. -/
def message : LoadError → String
  | failed uri cause => uri ++ ": " ++ cause.message
  | badUri => "this is no URI"
  | badAddress => "this is no address"
  | closed => "the client is closed"
  | unknownCharset => "unknown encoding"
  | multibyteCharset => "multi-byte encodings are not supported"

/-- The error of a document at a URI that cannot be read. -/
def ofRead (uri : String) : Xml.ReadError → LoadError
  | .notWellFormed => failed uri .notWellFormed
  | .unknownCharset => unknownCharset
  | .multibyteCharset => multibyteCharset

end LoadError

/-- Why a reference does not name a definition. -/
inductive UnresolvedReason where
  /-- The document has no definition with the identifier. -/
  | noDefinition (id : String)
  /-- The definition is of another kind; resources have none. -/
  | otherKind (id : String) (found : Option DefinitionKind) (wanted : DefinitionKind)
  /-- The document could not be loaded. -/
  | notLoaded (uri loadUri : String) (cause : LoadCause)
  /-- The reference was not reached from the description. -/
  | notReached
  /-- What is reached is not the wanted definition. -/
  | expected (what : String)
  deriving DecidableEq, Repr

/-- The text of a reason. -/
def UnresolvedReason.message : UnresolvedReason → String
  | noDefinition id => "no definition with id " ++ quoted id
  | otherKind id found wanted =>
    quoted id ++ " is a " ++ ((found.map (·.word)).getD "resource") ++ ", not a " ++ wanted.word
  | notLoaded uri loadUri cause =>
    "could not load " ++ quoted uri ++ ": " ++ (LoadError.failed loadUri cause).message
  | notReached => "not part of this resolution"
  | expected what => "expected a " ++ what

/-- Why a reference cannot be followed. -/
inductive ResolveError where
  | unresolved (href source : String) (reason : UnresolvedReason)
  /-- Aliases name each other in a circle. -/
  | cyclic (chain : List String)
  /-- A document that was loaded is no description. -/
  | document (error : DocumentError)
  /-- A reference is no URI. -/
  | badUri
  /-- A document cannot be asked for, or names a charset that cannot be read. -/
  | unloadable (error : LoadError)
  /-- Following references took more steps than were allowed. -/
  | exhausted
  deriving DecidableEq, Repr

/-- The text of an error. -/
def ResolveError.message : ResolveError → String
  | unresolved href source reason =>
    "unresolved reference " ++ quoted href ++ " from " ++ source ++ ": " ++ reason.message
  | cyclic chain =>
    "cyclic definition where a concrete type is required: " ++ " -> ".intercalate chain
  | document error => error.message
  | badUri => "a reference is no URI"
  | unloadable error => error.message
  | exhausted => "too many references"

end Wadl
