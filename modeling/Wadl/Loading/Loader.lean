import Wadl.Http.Exchange
import Wadl.Loading.FileTree
import Wadl.Resolution.Search

/-!
# Loading documents

Documents come from files or from services on the web; a `World` says how both are reached. A
`WebLoader` asks services with one client, and closes the client if it made it. A `Loader` goes by
the scheme of a URI: it makes a web loader when it first needs one, and lets go of it when it is
closed. One that was given to it is left alone. `Loader.clients` is the view of all clients that
there were.
-/

namespace Wadl

/-- What documents are loaded from. What a client does with a service is part of the world, as far
as a loader sees it. -/
structure World (m : Type → Type) [Monad m] where
  /-- The bytes of the file at a path. -/
  bytesAt : String → m (Except FileFault (List UInt8))
  service : Http.Service m
  /-- Whether a client can send requests to a URL. -/
  isAddress : String → Bool := fun url => (Http.Address.ofRequest url).isOk
  /-- What a client that is open gets at a URL. -/
  get (followsRedirects : Bool) (url : String) (headers : Headers) :
    m (Except Http.Fault (List UInt8)) := Http.get service followsRedirects url headers
  codecs : Codecs := .standard

/-- Loading gives notices. -/
abbrev Noticing (m : Type → Type) := StateT (List Notice) m

/-- The document that bytes from a URI are. -/
def documentOf (codecs : Codecs) (uri : String) (bytes : List UInt8) : Except LoadError Xml.Node :=
  match Xml.readBytes bytes codecs with
  | .ok root => .ok root.withoutMarks
  | .error e => .error (.ofRead uri e)

/-! ## Files -/

/-- The path of the file that a URI without a fragment names. -/
def filePath (uri : String) : Except LoadError String :=
  match Uri.parse uri.toList with
  | .error _ => .error .badUri
  | .ok parts =>
    if parts.scheme = "file".toList then
      .ok (pathText (percentDecoded (String.ofList parts.path)))
    else if parts.scheme.isEmpty then .ok (pathText uri)
    else .error (.failed uri (.unsupportedScheme (String.ofList parts.scheme)))

section
variable {m : Type → Type} [Monad m]

/-- The document in the file that a URI names. -/
def loadFile (world : World m) (uri : String) : Noticing m (Except LoadError Xml.Node) := do
  match defragmentUri uri with
  | .error _ => return .error .badUri
  | .ok (document, _) =>
    match filePath document with
    | .error e => return .error e
    | .ok path =>
      modify (· ++ [.readingFile path])
      if path.contains (Char.ofNat 0) then return .error .badUri
      match ← world.bytesAt path with
      | .error fault => return .error (.failed document (.refused (fault.message path)))
      | .ok bytes => return documentOf world.codecs document bytes

end

/-! ## Services -/

/-- A client for services on the web. -/
structure WebClient where
  followsRedirects : Bool
  isOpen : Bool := true
  deriving DecidableEq, Repr

/-- A client that is closed. -/
def WebClient.closed (c : WebClient) : WebClient := { c with isOpen := false }

/-- Loads documents from services. -/
structure WebLoader where
  client : WebClient
  /-- Whether the loader made the client. -/
  owns : Bool
  deriving DecidableEq, Repr

namespace WebLoader

/-- A loader that makes a client, which follows redirects. -/
def fresh : WebLoader := ⟨⟨true, true⟩, true⟩

/-- A loader for a client that is given. -/
def ofClient (client : WebClient) : WebLoader := ⟨client, false⟩

/-- Closes the client if the loader made it. -/
def close (l : WebLoader) : WebLoader := if l.owns then { l with client := l.client.closed } else l

/-- The types of documents that services are asked for. -/
def accepted : String := "application/vnd.sun.wadl+xml, application/xml;q=0.9"

/-- The error of a document that a service did not give. -/
def failure (uri : String) : Http.Fault → LoadError
  | .badAddress _ => .badAddress
  | .badHeader => .badAddress
  | fault => .failed uri (.refused fault.message)

section
variable {m : Type → Type} [Monad m]

/-- The document that a service has at a URI. -/
def load (world : World m) (l : WebLoader) (uri : String) :
    Noticing m (Except LoadError Xml.Node) := do
  match defragmentUri uri with
  | .error _ => return .error .badUri
  | .ok (document, _) =>
    modify (· ++ [.fetching document])
    if !l.client.isOpen then
      return .error (if world.isAddress document then .closed else .badAddress)
    match ← StateT.lift (world.get l.client.followsRedirects document [("Accept", accepted)]) with
    | .error fault => return .error (failure document fault)
    | .ok bytes => return documentOf world.codecs document bytes

end

end WebLoader

/-! ## Both -/

/-- Loads documents from files and services. -/
structure Loader where
  /-- The loader that services are asked with. -/
  web : Option WebLoader := none
  /-- Whether this loader made it. -/
  owns : Bool := false
  /-- The clients that were let go, the oldest first. -/
  released : List WebClient := []
  deriving DecidableEq, Repr

namespace Loader

/-- A loader that is given a web loader, or is to make its own. -/
def start (given : Option WebLoader) : Loader := { web := given }

/-- All clients that there were, the oldest first. -/
def clients (l : Loader) : List WebClient := l.released ++ (l.web.map (·.client)).toList

/-- The loader with a web loader, and that. -/
def withWeb (l : Loader) : Loader × WebLoader :=
  match l.web with
  | some w => (l, w)
  | none => ({ l with web := some WebLoader.fresh, owns := true }, WebLoader.fresh)

/-- Closes the web loader and lets go of it, if this loader made it. -/
def close (l : Loader) : Loader :=
  if l.owns then
    { web := none
      owns := false
      released := l.released ++ (l.web.map (·.close.client)).toList }
  else l

/-- Whether a URI is loaded from a service; none if it is no URI. -/
def isWeb? (uri : String) : Option Bool :=
  match Uri.parse uri.toList with
  | .ok parts => some (parts.scheme = "http".toList || parts.scheme = "https".toList)
  | .error _ => none

section
variable {m : Type → Type} [Monad m]

/-- The document at a URI, and the loader after that. -/
def load (world : World m) (l : Loader) (uri : String) :
    Noticing m (Except LoadError Xml.Node × Loader) := do
  match isWeb? uri with
  | none => return (.error .badUri, l)
  | some false => return (← loadFile world uri, l)
  | some true =>
    let (l, web) := l.withWeb
    return (← web.load world uri, l)

/-- Loading in a state that holds the loader. -/
def loading (world : World m) : Search.Loading (StateT Loader m) := fun uri notices => do
  let l ← get
  let ((result, l), notices) ← (l.load world uri).run notices
  set l
  return (result, notices)

end

end Loader

end Wadl
