import Wadl.Document.Index

/-!
# The references of a description

`Application.references` lists all references that stand in a description, and
`Definition.references` those in a definition, in the order of the document's parts.
-/

namespace Wadl

/-- The references in a link. -/
def Link.references (l : Link) : List Reference := l.resourceType.toList

/-- The references in a param. -/
def Param.references (p : Param) : List Reference := p.links.flatMap Link.references

/-- The references in a param, or the reference itself. -/
def ParamItem.references : ParamItem → List Reference
  | .inline p => p.references
  | .ref r _ => [r]

/-- The references in a representation. -/
def Representation.references (r : Representation) : List Reference :=
  r.params.flatMap ParamItem.references

/-- The references in a representation, or the reference itself. -/
def RepresentationItem.references : RepresentationItem → List Reference
  | .inline r => r.references
  | .ref r _ => [r]

/-- The references in a request. -/
def Request.references (r : Request) : List Reference :=
  r.params.flatMap ParamItem.references ++ r.representations.flatMap RepresentationItem.references

/-- The references in a response. -/
def Response.references (r : Response) : List Reference :=
  r.params.flatMap ParamItem.references ++ r.representations.flatMap RepresentationItem.references

/-- The references in a method. -/
def Method.references (m : Method) : List Reference :=
  m.request.toList.flatMap Request.references ++ m.responses.flatMap Response.references

/-- The references in a method, or the reference itself. -/
def MethodItem.references : MethodItem → List Reference
  | .inline m => m.references
  | .ref r => [r]

mutual

/-- The references in a resource and those below it. -/
def Resource.references : Resource → List Reference
  | ⟨_, _, types, _, params, methods, resources, _⟩ =>
    types ++ params.flatMap ParamItem.references ++ methods.flatMap MethodItem.references ++
      resourceReferences resources

/-- The references in some resources and those below them. -/
def resourceReferences : List Resource → List Reference
  | [] => []
  | r :: rs => r.references ++ resourceReferences rs

end

/-- The references in a resource type. -/
def ResourceType.references (t : ResourceType) : List Reference :=
  t.params.flatMap ParamItem.references ++ t.methods.flatMap MethodItem.references ++
    resourceReferences t.resources

/-- The references in a description. -/
def Application.references (app : Application) : List Reference :=
  app.resources.flatMap (fun g => resourceReferences g.resources) ++
    app.resourceTypes.flatMap ResourceType.references ++
    app.representations.flatMap RepresentationItem.references ++
    app.params.flatMap ParamItem.references ++ app.methods.flatMap Method.references

/-- The references in a definition. -/
def Definition.references : Definition → List Reference
  | resource r => r.references
  | resourceType t => t.references
  | representation item => item.references
  | param item => item.references
  | method m => m.references

end Wadl
