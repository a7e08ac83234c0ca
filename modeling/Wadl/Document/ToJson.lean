import Wadl.Document.Model
import Wadl.Json.Basic

/-!
# Descriptions as JSON

`Application.toJson` shows all parts of a description, also those that have their usual value.
Top-level definitions are members named by their identifiers.
-/

namespace Wadl

/-- A list as JSON. -/
def Json.ofList {α : Type} (f : α → Json) (xs : List α) : Json := .arr (xs.map f)

/-- A reference as JSON. -/
def Reference.toJson (r : Reference) : Json :=
  .obj [("kind", .str r.kind.word), ("href", .str r.href), ("source", .str r.source)]

/-- Documentation as JSON. -/
def Doc.toJson (d : Doc) : Json :=
  .obj [("title", .ofText? d.title), ("lang", .ofText? d.lang), ("content", .str d.content),
    ("xmlns", .ofText? d.xmlns)]

/-- A value of a param as JSON. -/
def ParamOption.toJson (o : ParamOption) : Json :=
  .obj [("value", .str o.value), ("media_type", .ofText? o.mediaType),
    ("docs", .ofList Doc.toJson o.docs)]

/-- A link as JSON. -/
def Link.toJson (l : Link) : Json :=
  .obj [("resource_type", (l.resourceType.map Reference.toJson).getD .null),
    ("rel", .ofText? l.rel), ("rev", .ofText? l.rev), ("docs", .ofList Doc.toJson l.docs)]

/-- A param as JSON. -/
def Param.toJson (p : Param) : Json :=
  .obj [("name", .str p.name), ("style", .str p.style.word), ("id", .ofText? p.id),
    ("type", .str p.type), ("default", .ofText? p.default), ("fixed", .ofText? p.fixed),
    ("path", .ofText? p.path), ("required", .bool p.required), ("repeating", .bool p.repeating),
    ("options", .ofList ParamOption.toJson p.options), ("links", .ofList Link.toJson p.links),
    ("docs", .ofList Doc.toJson p.docs)]

/-- A reference with the identifier that makes it an alias, as JSON. -/
def aliasJson (r : Reference) (id : Option String) : Json :=
  .obj [("ref", r.toJson), ("id", .ofText? id)]

/-- A param or a reference as JSON. -/
def ParamItem.toJson : ParamItem → Json
  | .inline p => p.toJson
  | .ref r id => aliasJson r id

/-- A representation as JSON. -/
def Representation.toJson (r : Representation) : Json :=
  .obj [("id", .ofText? r.id), ("media_type", .ofText? r.mediaType),
    ("element", .ofText? r.element), ("profile", .ofText? r.profile),
    ("params", .ofList ParamItem.toJson r.params), ("docs", .ofList Doc.toJson r.docs)]

/-- A representation or a reference as JSON. -/
def RepresentationItem.toJson : RepresentationItem → Json
  | .inline r => r.toJson
  | .ref r id => aliasJson r id

/-- A request as JSON. -/
def Request.toJson (r : Request) : Json :=
  .obj [("params", .ofList ParamItem.toJson r.params),
    ("representations", .ofList RepresentationItem.toJson r.representations),
    ("docs", .ofList Doc.toJson r.docs)]

/-- A response as JSON. -/
def Response.toJson (r : Response) : Json :=
  .obj [("status", .ofList .int r.status), ("params", .ofList ParamItem.toJson r.params),
    ("representations", .ofList RepresentationItem.toJson r.representations),
    ("docs", .ofList Doc.toJson r.docs)]

/-- A method as JSON. -/
def Method.toJson (m : Method) : Json :=
  .obj [("name", .str m.name), ("id", .ofText? m.id),
    ("request", (m.request.map Request.toJson).getD .null),
    ("responses", .ofList Response.toJson m.responses), ("docs", .ofList Doc.toJson m.docs)]

/-- A method or a reference as JSON. -/
def MethodItem.toJson : MethodItem → Json
  | .inline m => m.toJson
  | .ref r => .obj [("ref", r.toJson)]

mutual

/-- A resource as JSON. -/
def Resource.toJson : Resource → Json
  | ⟨id, path, types, queryType, params, methods, resources, docs⟩ =>
    .obj [("id", .ofText? id), ("path", .ofText? path), ("types", .ofList Reference.toJson types),
      ("query_type", .str queryType), ("params", .ofList ParamItem.toJson params),
      ("methods", .ofList MethodItem.toJson methods), ("resources", .arr (resourcesJson resources)),
      ("docs", .ofList Doc.toJson docs)]

/-- Resources as JSON. -/
def resourcesJson : List Resource → List Json
  | [] => []
  | r :: rs => r.toJson :: resourcesJson rs

end

/-- A resource type as JSON. -/
def ResourceType.toJson (t : ResourceType) : Json :=
  .obj [("id", .str t.id), ("query_type", .str t.queryType),
    ("params", .ofList ParamItem.toJson t.params), ("methods", .ofList MethodItem.toJson t.methods),
    ("resources", .arr (resourcesJson t.resources)), ("docs", .ofList Doc.toJson t.docs)]

/-- A group of resources as JSON. -/
def ResourceGroup.toJson (g : ResourceGroup) : Json :=
  .obj [("base", .ofText? g.base), ("resources", .arr (resourcesJson g.resources))]

/-- A description as JSON. -/
def Application.toJson (app : Application) : Json :=
  .obj [("base_uri", .str app.baseUri), ("docs", .ofList Doc.toJson app.docs),
    ("grammars", .ofList .str app.grammars),
    ("resources", .ofList ResourceGroup.toJson app.resources),
    ("resource_types", .obj (app.resourceTypes.map fun t => (t.id, t.toJson))),
    ("representations", .obj (app.representations.map fun r => (r.id.getD "", r.toJson))),
    ("params", .obj (app.params.map fun p => (p.id.getD "", p.toJson))),
    ("methods", .obj (app.methods.map fun m => (m.id.getD "", m.toJson)))]

end Wadl
