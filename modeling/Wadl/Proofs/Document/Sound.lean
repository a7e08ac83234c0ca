import Mathlib.Data.List.Nodup
import Wadl.Document.Reader
import Wadl.Proofs.Text.Pieces

/-!
# What descriptions that are read satisfy

`Application.Sound` says what every description that is read satisfies, part by part: the
identifiers and names that have to differ do, the placeholders are declared, and each reference was
joined with the base. What the texts and the documentation satisfy is left open as `Criteria`, since
it depends on where the tree comes from.
-/

namespace Wadl

/-! ## Documentation -/

/-- The documentation in a param. -/
def Param.allDocs (p : Param) : List Doc :=
  p.docs ++ p.options.flatMap (·.docs) ++ p.links.flatMap (·.docs)

/-- The documentation in a param, nothing for a reference. -/
def ParamItem.allDocs : ParamItem → List Doc
  | .inline p => p.allDocs
  | .ref .. => []

/-- The documentation in a representation, nothing for a reference. -/
def RepresentationItem.allDocs : RepresentationItem → List Doc
  | .inline r => r.docs ++ r.params.flatMap ParamItem.allDocs
  | .ref .. => []

/-- The documentation in a request. -/
def Request.allDocs (r : Request) : List Doc :=
  r.docs ++ r.params.flatMap ParamItem.allDocs ++
    r.representations.flatMap RepresentationItem.allDocs

/-- The documentation in a response. -/
def Response.allDocs (r : Response) : List Doc :=
  r.docs ++ r.params.flatMap ParamItem.allDocs ++
    r.representations.flatMap RepresentationItem.allDocs

/-- The documentation in a method. -/
def Method.allDocs (m : Method) : List Doc :=
  m.docs ++ m.request.toList.flatMap Request.allDocs ++ m.responses.flatMap Response.allDocs

/-- The documentation in a method, nothing for a reference. -/
def MethodItem.allDocs : MethodItem → List Doc
  | .inline m => m.allDocs
  | .ref _ => []

mutual

/-- The documentation in a resource and those below it. -/
def Resource.allDocs : Resource → List Doc
  | ⟨_, _, _, _, params, methods, resources, docs⟩ =>
    docs ++ params.flatMap ParamItem.allDocs ++ methods.flatMap MethodItem.allDocs ++
      resourceDocs resources

/-- The documentation in some resources and those below them. -/
def resourceDocs : List Resource → List Doc
  | [] => []
  | r :: rs => r.allDocs ++ resourceDocs rs

end

/-- The documentation in a resource type. -/
def ResourceType.allDocs (t : ResourceType) : List Doc :=
  t.docs ++ t.params.flatMap ParamItem.allDocs ++ t.methods.flatMap MethodItem.allDocs ++
    resourceDocs t.resources

/-- All documentation in a description. -/
def Application.allDocs (app : Application) : List Doc :=
  app.docs ++ app.resourceTypes.flatMap ResourceType.allDocs ++
    app.representations.flatMap RepresentationItem.allDocs ++
      app.params.flatMap ParamItem.allDocs ++
    app.methods.flatMap Method.allDocs ++ app.resources.flatMap fun g => resourceDocs g.resources

/-! ## The parts of a description -/

/-- What the texts and the documentation of a description satisfy, and the base it is read with. -/
structure Criteria where
  base : String
  text : String → Prop
  doc : Doc → Prop

/-- All of some texts that are there satisfy the criterion. -/
def Criteria.Texts (c : Criteria) (texts : List (Option String)) : Prop :=
  ∀ s, some s ∈ texts → c.text s

/-- The criteria for what is read of single words. -/
def Criteria.words (c : Criteria) : Criteria := ⟨c.base, fun s => c.text s ∧ IsWord s, c.doc⟩

/-- A reference to a definition of a kind that was joined with the base. -/
def Reference.Sound (c : Criteria) (kind : DefinitionKind) (r : Reference) : Prop :=
  r.kind = kind ∧ ∃ href, c.text href ∧ joinUri c.base href = .ok r.href

structure ParamOption.Sound (c : Criteria) (o : ParamOption) : Prop where
  texts : c.Texts [some o.value, o.mediaType]
  docs : ∀ d ∈ o.docs, c.doc d

structure Link.Sound (c : Criteria) (l : Link) : Prop where
  texts : c.Texts [l.rel, l.rev]
  target : ∀ r, l.resourceType = some r → r.Sound c .resourceType
  docs : ∀ d ∈ l.docs, c.doc d

structure Param.Sound (c : Criteria) (p : Param) : Prop where
  texts : c.Texts [some p.name, p.id, some p.type, p.default, p.fixed, p.path]
  options : ∀ o ∈ p.options, o.Sound c
  values : (p.options.map (·.value)).Nodup
  links : ∀ l ∈ p.links, l.Sound c
  docs : ∀ d ∈ p.docs, c.doc d

/-- A param that stands in an element of kind `location`: in the application itself it has an
identifier, and elsewhere a reference has none. -/
structure ParamItem.Sound (c : Criteria) (location : ElementKind) (item : ParamItem) : Prop where
  inline : ∀ p, item = .inline p → p.Sound c
  ref : ∀ r id, item = .ref r id → r.Sound c .param ∧ c.Texts [id] ∧
    (location ≠ .application → id = none)
  id : location = .application → item.id.isSome = true

/-- The names of the params that stand here. -/
def paramNames (params : List ParamItem) : List String :=
  params.filterMap (·.param?) |>.map (·.name)

/-- Params with different names. -/
structure ParamsSound (c : Criteria) (location : ElementKind) (params : List ParamItem) : Prop where
  items : ∀ p ∈ params, p.Sound c location
  names : (paramNames params).Nodup

structure Representation.Sound (c : Criteria) (r : Representation) : Prop where
  texts : c.Texts [r.id, r.mediaType, r.element, r.profile]
  params : ParamsSound c .representation r.params
  docs : ∀ d ∈ r.docs, c.doc d

/-- A representation that stands in an element of kind `location`, with an identifier as for
params. -/
structure RepresentationItem.Sound (c : Criteria) (location : ElementKind)
    (item : RepresentationItem) : Prop where
  inline : ∀ r, item = .inline r → r.Sound c
  ref : ∀ r id, item = .ref r id →
    r.Sound c .representation ∧ c.Texts [id] ∧ (location ≠ .application → id = none)
  id : location = .application → item.id.isSome = true

structure Request.Sound (c : Criteria) (r : Request) : Prop where
  params : ParamsSound c .request r.params
  representations : ∀ item ∈ r.representations, item.Sound c .request
  docs : ∀ d ∈ r.docs, c.doc d

structure Response.Sound (c : Criteria) (r : Response) : Prop where
  status : ∀ n ∈ r.status, ∃ word, readInteger word = some n
  params : ParamsSound c .response r.params
  representations : ∀ item ∈ r.representations, item.Sound c .response
  docs : ∀ d ∈ r.docs, c.doc d

structure Method.Sound (c : Criteria) (m : Method) : Prop where
  texts : c.Texts [some m.name, m.id]
  request : ∀ r, m.request = some r → r.Sound c
  responses : ∀ r ∈ m.responses, r.Sound c
  docs : ∀ d ∈ m.docs, c.doc d

structure MethodItem.Sound (c : Criteria) (item : MethodItem) : Prop where
  inline : ∀ m, item = .inline m → m.Sound c
  ref : ∀ r, item = .ref r → r.Sound c .method

/-- Methods with different identifiers. -/
structure MethodsSound (c : Criteria) (methods : List MethodItem) : Prop where
  items : ∀ m ∈ methods, m.Sound c
  ids : (methods.filterMap Reader.methodId?).Nodup

/-- A resource below elements that declare the template params `inherited`. -/
inductive Resource.Sound (c : Criteria) : List String → Resource → Prop where
  | mk {inherited : List String} {r : Resource} (texts : c.Texts [r.id, r.path, some r.queryType])
      (types : ∀ t ∈ r.types, t.Sound c.words .resourceType)
      (params : ParamsSound c .resource r.params) (methods : MethodsSound c r.methods)
      (placeholders : Reader.undeclaredPlaceholder?
        (inherited ++ Reader.templateNames r.params) r.path r.params r.methods = none)
      (docs : ∀ d ∈ r.docs, c.doc d)
      (resources : ∀ s ∈ r.resources,
        Resource.Sound c (inherited ++ Reader.templateNames r.params) s) :
      Resource.Sound c inherited r

structure ResourceType.Sound (c : Criteria) (t : ResourceType) : Prop where
  texts : c.Texts [some t.id, some t.queryType]
  params : ParamsSound c .resourceType t.params
  methods : MethodsSound c t.methods
  resources : ∀ r ∈ t.resources, r.Sound c (Reader.templateNames t.params)
  docs : ∀ d ∈ t.docs, c.doc d

structure ResourceGroup.Sound (c : Criteria) (g : ResourceGroup) : Prop where
  texts : c.Texts [g.base]
  resources : ∀ r ∈ g.resources, r.Sound c []

/-- The parts of a description, each kind of definitions with different identifiers. -/
structure Application.PartsSound (c : Criteria) (app : Application) : Prop where
  base : app.baseUri = c.base
  docs : ∀ d ∈ app.docs, c.doc d
  grammars : ∀ href ∈ app.grammars, c.text href
  resources : ∀ g ∈ app.resources, g.Sound c
  resourceTypes : ∀ t ∈ app.resourceTypes, t.Sound c
  resourceTypeIds : (app.resourceTypes.map (some ·.id)).Nodup
  representations : ∀ r ∈ app.representations, r.Sound c .application
  representationIds : (app.representations.map (·.id)).Nodup
  params : ∀ p ∈ app.params, p.Sound c .application
  paramIds : (app.params.map (·.id)).Nodup
  methods : ∀ m ∈ app.methods, m.Sound c ∧ m.id.isSome = true
  methodIds : (app.methods.map (·.id)).Nodup

/-- A description in which all identifiers differ. -/
structure Application.Sound (c : Criteria) (app : Application) : Prop extends app.PartsSound c where
  index : repeatedEntry? [] app.entries = none

end Wadl
