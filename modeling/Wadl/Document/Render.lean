import Wadl.Document.Model
import Wadl.Document.Outline
import Wadl.Document.Vocabulary

/-!
# Writing a description

`render` writes a description as a document that reads back as the same description under the same
base. Attributes that have their usual value are left out, and a reference to the document itself is
written as a fragment.
-/

namespace Wadl

/-- The text of a reference in a document with the given base. -/
def Reference.written (base : String) (r : Reference) : Except UriError String := do
  let (document, fragment) ← r.target
  return if document = base then "#" ++ fragment else r.href

namespace Render

/-- Words as an attribute, which is left out if they make no text. -/
def words (ws : List String) : Option String :=
  let text := " ".intercalate ws
  if text.isEmpty then none else some text

/-- A flag as an attribute, which is left out if it is false. -/
def flag (b : Bool) : Option String := if b then some "true" else none

/-- The media type of queries as an attribute, which is left out if it is the usual one. -/
def queryType (t : String) : Option String := if t = formMediaType then none else some t

/-- An element with the attributes that have a value. -/
def element (kind : ElementKind) (attributes : List (String × Option String))
    (children : List Outline) : Outline :=
  .element kind.word (Outline.present attributes) children

/-- Documentation. -/
def doc (d : Doc) : Outline :=
  .verbatim ElementKind.doc.word
    (Outline.present [("xmlns", d.xmlns), ("title", d.title), ("xml:lang", d.lang)]) d.content

/-- A value that a param may have. -/
def option (o : ParamOption) : Outline :=
  element .option [("value", some o.value), ("mediaType", o.mediaType)] (o.docs.map doc)

/-- A link. -/
def link (base : String) (l : Link) : Except UriError Outline := do
  let target ← l.resourceType.mapM (·.written base)
  return element .link [("resource_type", target), ("rel", l.rel), ("rev", l.rev)] (l.docs.map doc)

/-- A param or a reference to one. -/
def param (base : String) : ParamItem → Except UriError Outline
  | .ref r id => do
    return element .param [("id", id), ("href", some (← r.written base))] []
  | .inline p => do
    let links ← p.links.mapM (link base)
    return element .param
      [("name", some p.name), ("style", some p.style.word), ("id", p.id), ("type", some p.type),
        ("default", p.default), ("fixed", p.fixed), ("path", p.path),
        ("required", flag p.required), ("repeating", flag p.repeating)]
      (p.docs.map doc ++ p.options.map option ++ links)

/-- A representation or a reference to one. -/
def representation (base : String) : RepresentationItem → Except UriError Outline
  | .ref r id => do
    return element .representation [("id", id), ("href", some (← r.written base))] []
  | .inline r => do
    let params ← r.params.mapM (param base)
    return element .representation
      [("id", r.id), ("mediaType", r.mediaType), ("element", r.element), ("profile", r.profile)]
      (r.docs.map doc ++ params)

/-- A request. -/
def request (base : String) (r : Request) : Except UriError Outline := do
  let params ← r.params.mapM (param base)
  let representations ← r.representations.mapM (representation base)
  return element .request [] (r.docs.map doc ++ params ++ representations)

/-- A response. -/
def response (base : String) (r : Response) : Except UriError Outline := do
  let params ← r.params.mapM (param base)
  let representations ← r.representations.mapM (representation base)
  return element .response [("status", words (r.status.map toString))]
    (r.docs.map doc ++ params ++ representations)

/-- A method. -/
def methodBody (base : String) (m : Method) : Except UriError Outline := do
  let requests ← m.request.toList.mapM (request base)
  let responses ← m.responses.mapM (response base)
  return element .method [("name", some m.name), ("id", m.id)]
    (m.docs.map doc ++ requests ++ responses)

/-- A method or a reference to one. -/
def method (base : String) : MethodItem → Except UriError Outline
  | .ref r => do return element .method [("href", some (← r.written base))] []
  | .inline m => methodBody base m

mutual

/-- A resource and all below it. -/
def resource (base : String) : Resource → Except UriError Outline
  | ⟨id, path, types, query, params, methods, resources, docs⟩ => do
    let hrefs ← types.mapM (·.written base)
    let params ← params.mapM (param base)
    let methods ← methods.mapM (method base)
    let children ← resourceList base resources
    return element .resource
      [("id", id), ("path", path), ("type", words hrefs), ("queryType", queryType query)]
      (docs.map doc ++ params ++ methods ++ children)

/-- Some resources and all below them. -/
def resourceList (base : String) : List Resource → Except UriError (List Outline)
  | [] => pure []
  | r :: rs => do return (← resource base r) :: (← resourceList base rs)

end

/-- A resource type. -/
def resourceType (base : String) (t : ResourceType) : Except UriError Outline := do
  let params ← t.params.mapM (param base)
  let methods ← t.methods.mapM (method base)
  let children ← resourceList base t.resources
  return element .resourceType [("id", some t.id), ("queryType", queryType t.queryType)]
    (t.docs.map doc ++ params ++ methods ++ children)

/-- A group of resources. -/
def group (base : String) (g : ResourceGroup) : Except UriError Outline := do
  return element .resources [("base", g.base)] (← resourceList base g.resources)

/-- The grammars, if there are any. -/
def grammars (hrefs : List String) : List Outline :=
  if hrefs.isEmpty then []
  else [element .grammars [] (hrefs.map fun href => element .include [("href", some href)] [])]

/-- A description. -/
def application (app : Application) : Except UriError Outline := do
  let types ← app.resourceTypes.mapM (resourceType app.baseUri)
  let representations ← app.representations.mapM (representation app.baseUri)
  let params ← app.params.mapM (param app.baseUri)
  let methods ← app.methods.mapM (methodBody app.baseUri)
  let groups ← app.resources.mapM (group app.baseUri)
  return element .application [("xmlns", some wadlSpace)]
    (app.docs.map doc ++ grammars app.grammars ++ types ++ representations ++ params ++ methods ++
      groups)

end Render

/-- The document of a description. -/
def render (app : Application) : Except UriError String := do
  return (← Render.application app).document

end Wadl
