import Wadl.Document.Error
import Wadl.Document.Model

/-!
# The identifiers of a document

Two definitions may be equal and still be two: what makes a definition itself is the `Place` where
it stands, that is the document and the steps that lead to it from the root.

`Application.entries` lists what a document defines under an identifier: its resource types and
resources, its top-level representations, params and methods, and the representations that stand
inside methods. An `Index` holds these entries if their identifiers differ. References name all but
resources.
-/

namespace Wadl

/-! ## Places -/

/-- A step to a child; `n` counts the children of the same kind. -/
inductive Step where
  | group (n : Nat)
  | resource (n : Nat)
  | resourceType (n : Nat)
  | representation (n : Nat)
  | param (n : Nat)
  | method (n : Nat)
  | request
  | response (n : Nat)
  deriving DecidableEq, Repr, Hashable

/-- Where a definition stands. -/
structure Place where
  /-- The URI of the document. -/
  document : String
  steps : List Step
  deriving DecidableEq, Repr, Hashable

/-- The place of a child. -/
def Place.child (p : Place) (s : Step) : Place := ⟨p.document, p.steps ++ [s]⟩

/-! ## Entries -/

/-- Something that an identifier can name. -/
inductive Definition where
  | resource (resource : Resource)
  | resourceType (type : ResourceType)
  | representation (item : RepresentationItem)
  | param (item : ParamItem)
  | method (method : Method)
  deriving Repr

/-- The kind of a definition, if references can name it. -/
def Definition.kind? : Definition → Option DefinitionKind
  | resource _ => none
  | resourceType _ => some .resourceType
  | representation _ => some .representation
  | param _ => some .param
  | method _ => some .method

/-- An identifier and what it names. -/
structure Entry where
  id : String
  definition : Definition
  /-- The labels of the elements that lead to the definition, for messages. -/
  path : List String
  steps : List Step
  deriving Repr

/-- The kind of what an entry names, if references can name it. -/
def Entry.kind? (e : Entry) : Option DefinitionKind := e.definition.kind?

/-- The label of an element in a path. -/
def labelled (element id : String) : String := element ++ "[" ++ id ++ "]"

/-- The first text that is there and not empty. -/
def firstNonEmpty : List (Option String) → String
  | [] => ""
  | some s :: rest => if s.isEmpty then firstNonEmpty rest else s
  | none :: rest => firstNonEmpty rest

/-- The identified representations of a request or a response. -/
def bodyEntries (items : List RepresentationItem) (path : List String) (steps : List Step) :
    List Entry :=
  items.zipIdx.filterMap fun
    | (.inline rep, n) =>
      match rep.id with
      | some id =>
        if id.isEmpty then none
        else some ⟨id, .representation (.inline rep), path ++ [labelled "representation" id],
          steps ++ [.representation n]⟩
      | none => none
    | (.ref .., _) => none

/-- The identified representations of a method. -/
def Method.entries (m : Method) (path : List String) (steps : List Step) : List Entry :=
  (match m.request with
    | some request =>
      bodyEntries request.representations (path ++ ["request"]) (steps ++ [.request])
    | none => []) ++
  m.responses.zipIdx.flatMap fun (response, n) =>
    bodyEntries response.representations (path ++ ["response"]) (steps ++ [.response n])

/-- The identified representations of the methods that stand in a resource or a type. -/
def methodEntries (methods : List MethodItem) (path : List String) (steps : List Step) :
    List Entry :=
  methods.zipIdx.flatMap fun
    | (.inline m, n) =>
      m.entries (path ++ [labelled "method" (firstNonEmpty [m.id, some m.name])])
        (steps ++ [.method n])
    | (.ref _, _) => []

mutual

/-- What a resource and those below it define. -/
def Resource.entries (path : List String) (steps : List Step) : Resource → List Entry
  | ⟨id, uriPath, types, queryType, params, methods, resources, docs⟩ =>
    let inside := path ++ [labelled "resource" (firstNonEmpty [id, uriPath])]
    (match id with
      | some i =>
        if i.isEmpty then []
        else [⟨i, .resource ⟨id, uriPath, types, queryType, params, methods, resources, docs⟩,
          inside, steps⟩]
      | none => []) ++
    methodEntries methods inside steps ++ resourceEntries inside steps 0 resources

/-- What some resources define; `n` is the count of those before them. -/
def resourceEntries (path : List String) (steps : List Step) (n : Nat) :
    List Resource → List Entry
  | [] => []
  | r :: rs => r.entries path (steps ++ [.resource n]) ++ resourceEntries path steps (n + 1) rs

end

/-- What a resource type defines, itself first. -/
def ResourceType.entries (type : ResourceType) (path : List String) (steps : List Step) :
    List Entry :=
  let inside := path ++ [labelled "resource_type" type.id]
  ⟨type.id, .resourceType type, inside, steps⟩ ::
    (methodEntries type.methods inside steps ++ resourceEntries inside steps 0 type.resources)

/-- What a description defines under an identifier, in order. -/
def Application.entries (app : Application) : List Entry :=
  let root := ["application"]
  (app.resourceTypes.zipIdx.flatMap fun (type, n) => type.entries root [.resourceType n]) ++
  (app.representations.zipIdx.map fun (item, n) =>
    let id := item.id.getD ""
    ⟨id, .representation item, root ++ [labelled "representation" id], [.representation n]⟩) ++
  (app.params.zipIdx.map fun (item, n) =>
    let id := item.id.getD ""
    ⟨id, .param item, root ++ [labelled "param" id], [.param n]⟩) ++
  (app.methods.zipIdx.flatMap fun (m, n) =>
    let id := m.id.getD ""
    let inside := root ++ [labelled "method" id]
    ⟨id, .method m, inside, [.method n]⟩ :: m.entries inside [.method n]) ++
  app.resources.zipIdx.flatMap fun (group, n) =>
    resourceEntries (root ++ ["resources"]) [.group n] 0 group.resources

/-- The first entry whose identifier one of the earlier entries has. -/
def repeatedEntry? (seen : List String) : List Entry → Option Entry
  | [] => none
  | e :: rest => if seen.contains e.id then some e else repeatedEntry? (e.id :: seen) rest

/-- The entries of a document, whose identifiers differ. -/
structure Index where
  /-- The URI of the document. -/
  document : String
  entries : List Entry
  unique : repeatedEntry? [] entries = none

namespace Index

/-- The index of a description. -/
def ofApplication (app : Application) : Except DocumentError Index :=
  match h : repeatedEntry? [] app.entries with
  | none => .ok ⟨app.baseUri, app.entries, h⟩
  | some e => .error (.duplicateId e.id .id e.path)

/-- The entry of an identifier. -/
def get? (index : Index) (id : String) : Option Entry := index.entries.find? (·.id = id)

/-- Whether the document defines an identifier. -/
def contains (index : Index) (id : String) : Bool := (index.get? id).isSome

/-- The count of the identifiers. -/
def size (index : Index) : Nat := index.entries.length

end Index

end Wadl
