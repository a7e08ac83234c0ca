import Wadl.Document.Reader
import Wadl.Resolution.Basic

/-!
# Following references

All references of a description are followed, then those in the definitions that they name, and so
on, each URI once. Documents are loaded when a reference names one of their definitions.
`resolveWith` does this with any way of loading; `resolve` with a library of finitely many
documents, where the steps that can be taken are known beforehand.
-/

namespace Wadl

namespace Search

/-- What is known during the search. -/
structure State where
  app : Application
  targets : List (String × Target)
  /-- The descriptions that were read, with their identifiers. -/
  documents : List (String × Application × Index)

/-- A search can fail, and gives notices also when it does; `m` is what loading needs. -/
abbrev Following (m : Type → Type) := ExceptT ResolveError (StateT (List Notice) m)

variable {m : Type → Type} [Monad m]

/-- Fails unless a reference wants what it names. -/
def checkKind (ref : Reference) (id : String) (found : Option DefinitionKind) :
    Except ResolveError Unit :=
  if found = some ref.kind then .ok ()
  else .error (.unresolved ref.href ref.source (.otherKind id found ref.kind))

/-- Reads a description; its notices are given. -/
def readNoticed (uri : String) (strict : Bool) (root : Xml.Node) : Following m Application := do
  let (result, notices) := ((readDescription uri strict root).run.run [])
  modify (· ++ notices)
  match result with
  | .ok app => return app
  | .error e => throw (.document e)

/-- The error of a reference whose document cannot be had. -/
def loadFailure (ref : Reference) (uri : String) : LoadError → ResolveError
  | .failed loadUri cause => .unresolved ref.href ref.source (.notLoaded uri loadUri cause)
  | e => .unloadable e

/-- A way to load documents; it can give notices. -/
abbrev Loading (m : Type → Type) := String → StateT (List Notice) m (Except LoadError Xml.Node)

/-- The identifiers of a document, which is loaded if it was not yet. -/
def documentFor (load : Option (Loading m)) (strict : Bool) (s : State) (uri : String)
    (ref : Reference) : Following m (Index × State) := do
  match s.documents.lookup uri with
  | some (_, index) => return (index, s)
  | none =>
    match load with
    | none => throw (loadFailure ref uri (.failed uri .notConfigured))
    | some load =>
      modify (· ++ [.loadingDocument uri])
      match ← load uri with
      | .error e => throw (loadFailure ref uri e)
      | .ok root =>
        let app ← readNoticed uri strict root
        match Index.ofApplication app with
        | .error e => throw (.document e)
        | .ok index => return (index, { s with documents := s.documents ++ [(uri, app, index)] })

/-- What a reference that was not followed yet names. -/
def lookUp (load : Option (Loading m)) (strict : Bool) (s : State) (ref : Reference) :
    Following m (Target × State) := do
  match ref.target with
  | .error _ => throw .badUri
  | .ok (uri, id) =>
    let (index, s) ← documentFor load strict s uri ref
    match index.get? id with
    | none => throw (.unresolved ref.href ref.source (.noDefinition id))
    | some entry =>
      let _ ← (checkKind ref id entry.kind? : Except ResolveError Unit)
      return (⟨entry.definition, ⟨uri, entry.steps⟩⟩, s)

/-- Follows one reference; gives the references in what it names, if that is new. -/
def followOne (load : Option (Loading m)) (strict : Bool) (s : State) (ref : Reference) :
    Following m (State × List Reference) := do
  match s.targets.lookup ref.href with
  | some known =>
    match ref.target with
    | .error _ => throw .badUri
    | .ok (_, id) =>
      let _ ← (checkKind ref id known.kind? : Except ResolveError Unit)
      return (s, [])
  | none =>
    let (target, s) ← lookUp load strict s ref
    return ({ s with targets := s.targets ++ [(ref.href, target)] }, target.definition.references)

/-- Follows the references of a queue and all that they lead to, in at most `fuel` steps. -/
def run (load : Option (Loading m)) (strict : Bool) :
    (fuel : Nat) → State → List Reference → Following m State
  | _, s, [] => return s
  | 0, _, _ :: _ => throw .exhausted
  | fuel + 1, s, ref :: queue => do
    let (s, found) ← followOne load strict s ref
    run load strict fuel s (queue ++ found)

/-- The result of a search. -/
def State.resolution (s : State) : Resolution where
  app := s.app
  targets := s.targets
  documents := s.documents.map fun (uri, app, _) => (uri, app)

end Search

open Search in
/-- Follows all references that a description leads to, in at most `fuel` steps. -/
def resolveWith {m : Type → Type} [Monad m] (load : Option (Loading m)) (strict : Bool)
    (fuel : Nat) (app : Application) : Following m Resolution := do
  match Index.ofApplication app with
  | .error e => throw (.document e)
  | .ok index =>
    let s ← run load strict fuel ⟨app, [], [(app.baseUri, app, index)]⟩ app.references
    return s.resolution

/-! ## Finitely many documents -/

/-- Documents with the URIs that they are loaded by. -/
structure Library where
  documents : List (String × Except LoadError Xml.Node)

namespace Library

/-- The document that a URI names. -/
def load (library : Library) (uri : String) : Except LoadError Xml.Node :=
  match defragmentUri uri with
  | .error _ => .error .badUri
  | .ok (document, _) =>
    match library.documents.lookup document with
    | some result => result
    | none => .error (.failed document .noSuchDocument)

/-- The documents that are asked for when some URIs are loaded. -/
def asked (uris : List String) : List String :=
  uris.filterMap fun uri => (defragmentUri uri).toOption.map (·.1)

/-- The count of the references in a document. -/
def referenceCount (strict : Bool) (uri : String) (document : Except LoadError Xml.Node) : Nat :=
  match document with
  | .error _ => 0
  | .ok root =>
    match ((readDescription uri strict root).run.run []).1 with
    | .ok app => app.references.length
    | .error _ => 0

/-- Steps that suffice to follow all references: each reference of each document can be in the queue
for the document itself, and once for each reference whose definition holds it. -/
def budget (library : Library) (strict : Bool) (app : Application) : Nat :=
  let total := app.references.length +
    (library.documents.map fun (uri, document) => referenceCount strict uri document).foldr
      (· + ·) 0
  total + total * total

end Library

/-- Follows all references that a description leads to, with the documents of a library if there is
one. -/
def resolve (library : Option Library) (strict : Bool) (app : Application) :
    Except ResolveError Resolution × List Notice :=
  let load := library.map fun l => (fun uri => pure (l.load uri) : Search.Loading Id)
  let fuel := (library.getD ⟨[]⟩).budget strict app
  Id.run ((resolveWith load strict fuel app).run.run [])

end Wadl
