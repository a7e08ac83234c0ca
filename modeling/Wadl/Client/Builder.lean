import Wadl.Client.Module
import Wadl.Docs.Text
import Wadl.Source.Docstring

/-!
# Building a client

`buildModule` makes a client of a resolved description and its types. Names are claimed scope by
scope; params become arguments or fixed values, and what a resource leaves open in its URL is filled
by its operations.
-/

namespace Wadl

namespace Build

/-- What building needs to know. -/
structure Env where
  resolution : Resolution
  table : TypeTable
  config : ClientConfig
  /-- The classes of resources and resource types, by their places. -/
  classNames : List (Place × String)
  containers : List Container

variable (env : Env)

/-! ## Documentation and names -/

/-- Text of documentation; its notices are given. -/
def noticedText (docs : List Doc) : Generating String := do
  let (text, notices) := docsText env.config.skipCode docs
  modify (· ++ notices)
  return text

/-- Documentation, if it is wanted and there is any. -/
def docOf (docs : List Doc) : Generating (Option String) := do
  if env.config.includeDocs then return docstring (← noticedText env docs) else return none

/-- A name in the chosen style. -/
def nameOf (text : String) : String := env.config.style.identifier text

/-- An empty scope. -/
def newScope (label : String) : NameScope := { label, escapes := env.config.escapeReserved }

/-- Claims a name in a scope. -/
def claim (scope : NameScope) (name source : String) :
    Except GenerationError (String × NameScope) :=
  (scope.claim name source).mapError .clash

/-- The class of what stands at a place. -/
def classAt (place : Place) : Except GenerationError String :=
  match env.classNames.lookup place with
  | some name => .ok name
  | none => .error .noClass

/-- The class of the resource type that a reference names. -/
def classOfType (ref : Reference) : Except GenerationError String := do
  classAt env (← (env.resolution.resourceType ref).mapError .reference).place

/-- The param that an item stands for. -/
def paramOf (item : ParamItem) : Except GenerationError Param :=
  (env.resolution.param item).mapError .reference

/-- The params that items stand for. -/
def paramsOf (items : List ParamItem) : Except GenerationError (List Param) :=
  items.mapM (paramOf env)

/-- The methods of a container. -/
def methodsOf (c : Container) : Except GenerationError (List (Placed Method)) :=
  (env.resolution.methods c).mapError .reference

/-! ## Types and values -/

/-- The type of the values of a param. -/
def valueType (p : Param) (source : String) : Except GenerationError ValueType :=
  match env.table.enumFor? p with
  | some e => .ok (.enum e.name)
  | none => .written <$> mapType env.config.overrides p.type source

/-- The expression for a value of a param. -/
def valueExpr (p : Param) (value : String) (type : ValueType) (source : String) :
    Except GenerationError ValueExpr :=
  match env.table.enumFor? p with
  | none => .literal <$> literalOf value type.source p.type source
  | some e =>
    match e.members.find? (·.2 = value) with
    | some (member, _) => .ok (.member e.name member)
    | none => .error (.unsupportedType p.type source (some (.notAnOption value)))

/-- The name of a type, with the class in which it stands. -/
def modelRef (c : CanonicalType) : ModelRef :=
  ⟨c.owner.bind fun owner => env.classNames.lookup owner.place, c.name⟩

/-- The model of a representation, unless it has no fields. -/
def modelOf (rep : Placed Representation) : Option ModelRef :=
  (env.table.typeAt? rep.place).map (modelRef env)

/-- The type of a body. -/
def bodyType (rep : Placed Representation) : BodyType :=
  match modelOf env rep with
  | some ref => .model ref
  | none => .raw (.ofMediaType rep.value.mediaType)

/-- The rank of a media type: its position among the preferred ones, then all others, then none. -/
def rank (mediaType : Option String) : Nat :=
  let order := env.config.preference.map MediaType.essence
  match mediaType with
  | none => order.length + 1
  | some m => order.findIdx (· = MediaType.essence m)

/-- Values in the order of their media types, the preferred ones first. -/
def preferred {α : Type} (mediaType : α → Option String) (xs : List α) : List α :=
  sorted (fun a b => rank env (mediaType a) ≤ rank env (mediaType b)) xs

/-! ## Placeholders -/

/-- The params of some stations, in their order. -/
def scopeParams : List Station → Except GenerationError (List Param)
  | [] => .ok []
  | s :: above => do
    let own ← paramsOf env s.holder.params
    return own ++ (← scopeParams above)

/-- The template params of some stations; of several with one name, the first. -/
def templateDecls (stations : List Station) : Except GenerationError (List Param) := do
  return (← scopeParams env stations).filter (·.style = .template)

/-- The template param with a name. -/
def declOf? (decls : List Param) (name : String) : Option Param := decls.find? (·.name = name)

/-- The placeholders that are left in the URL of the first of some stations, each around the one
before it: those that no accessor fills. -/
def pending : List Station → Except GenerationError (List String)
  | [] => .ok []
  | s :: above =>
    match s.holder with
    | .type _ => .ok []
    | .resource r => do
      let inherited ← pending above
      let decls ← templateDecls env (s :: above)
      let own := r.placeholders.filter fun p =>
        (declOf? decls p).isNone && !inherited.contains p
      return inherited ++ own

/-! ## Models -/

/-- A field for a param. -/
def modelField (p : Param) (name : String) (type : ValueType) (source : String) :
    Except GenerationError ModelField := do
  let wireName := if name = p.name then none else some p.name
  if p.repeating then
    return ⟨name, wireName, ⟨type, true, false⟩, if p.required then .required else .emptyList⟩
  match p.default.or p.fixed with
  | some value =>
    return ⟨name, wireName, ⟨type, false, false⟩, .value (← valueExpr env p value type source)⟩
  | none =>
    return ⟨name, wireName, ⟨type, false, !p.required⟩,
      if p.required then .required else .nothing⟩

/-- The helpers that follow the links of a param. -/
def followHelpers (scope : NameScope) (field : String) (p : Param) :
    List Link → Except GenerationError (List FollowHelper × NameScope)
  | [] => .ok ([], scope)
  | link :: rest =>
    match link.resourceType with
    | none => followHelpers scope field p rest
    | some ref => do
      let target ← classOfType env ref
      let (name, scope) ←
        claim scope (nameOf env ("follow_" ++ field)) ("link helper for " ++ quoted field)
      let (helpers, scope) ← followHelpers scope field p rest
      return (⟨name, field, target, p.repeating, p.required⟩ :: helpers, scope)

/-- The fields for some params, with the helpers that follow their links. -/
def modelFields (owner : String) (scope : NameScope) :
    List Param → Except GenerationError (List ModelField × List FollowHelper)
  | [] => .ok ([], [])
  | p :: rest => do
    let source := "param " ++ quoted p.name ++ " of " ++ owner
    let (name, scope) ← claim scope (nameOf env p.name) source
    let type ← valueType env p source
    let field ← modelField env p name type source
    let (helpers, scope) ← followHelpers env scope name p p.links
    let (fields, more) ← modelFields owner scope rest
    return (field :: fields, helpers ++ more)

/-- The class of a type. -/
def modelClass (c : CanonicalType) : Generating ModelClass := do
  let scope := (newScope env ("model " ++ c.name)).reserve "model_config" "pydantic configuration"
  let (fields, follows) ← modelFields env c.name scope c.fields
  let docs := ((c.members.map (·.value.docs)).find? (!·.isEmpty)).getD []
  return ⟨c.name, ← docOf env docs, fields, follows⟩

/-! ## Accessors -/

/-- The names of the accessors of resources that stand side by side. Those that would have one name
are told apart by their placeholders. -/
def accessorNames (resources : List Resource) : List String :=
  let base (words : List String) : String :=
    let text := " ".intercalate words
    nameOf env (if text.isEmpty then "root" else text)
  let bases := resources.map fun r => base r.segments
  resources.map fun r =>
    let name := base r.segments
    if bases.count name > 1 && !r.placeholders.isEmpty && (r.id.getD "").isEmpty &&
        r.segments.head? != some "by" then
      nameOf env (" ".intercalate (r.segments ++ "by" :: r.placeholders))
    else name

/-- The arguments of an accessor: one for each placeholder that a template param declares. -/
def placeholderArgs (decls : List Param) (label : String) (scope : NameScope) :
    List String → Except GenerationError (List PlaceholderArg)
  | [] => .ok []
  | placeholder :: rest =>
    match declOf? decls placeholder with
    | none => placeholderArgs decls label scope rest
    | some p => do
      let source := "template param " ++ quoted placeholder ++ " of resource " ++ quoted label
      let (name, scope) ← claim scope (nameOf env placeholder) source
      let type ← valueType env p source
      return ⟨placeholder, name, type⟩ :: (← placeholderArgs decls label scope rest)

/-- What messages call a resource. -/
def resourceLabel (r : Resource) : String := firstNonEmpty [r.id, r.path]

/-- The accessor of a resource; its name is claimed in `scope`. -/
def accessor (scope : NameScope) (child : Container) (r : Resource) (base : UrlBase)
    (wanted : String) : Generating (Accessor × NameScope) := do
  let label := resourceLabel r
  let source := "resource " ++ quoted label
  let (name, scope) ←
    if scope.reserved.contains wanted then claim scope wanted source
    else pure (scope.claimUnique wanted source)
  let decls ← templateDecls env (child.here :: child.above)
  let args ← placeholderArgs env decls label (newScope env ("accessor " ++ name)) r.placeholders
  let target ← classAt env child.place
  let doc ← docOf env r.docs
  return (⟨name, args, target, base, r.path.getD "", doc⟩, scope)

/-- The accessors of resources that stand side by side, each with the URL that it begins with. -/
def accessors (scope : NameScope) :
    List ((Container × Resource × UrlBase) × String) → Generating (List Accessor)
  | [] => return []
  | ((child, r, base), name) :: rest => do
    let (a, scope) ← accessor env scope child r base name
    return a :: (← accessors scope rest)

/-- Resources among containers, each with the URL that its accessor begins with. -/
def withResources (base : UrlBase) (cs : List Container) : List (Container × Resource × UrlBase) :=
  cs.filterMap fun c => c.here.holder.resource?.map fun r => (c, r, base)

/-- The accessors of resources that stand side by side, with their names. -/
def namedAccessors (scope : NameScope) (children : List (Container × Resource × UrlBase)) :
    Generating (List Accessor) :=
  accessors env scope (children.zip (accessorNames env (children.map (·.2.1))))

/-! ## Operations -/

/-- An operation whose arguments are being collected. -/
structure Draft where
  scope : NameScope
  args : List Argument := []
  template : List (String × ValueExpr) := []
  matrix : List (String × ValueExpr) := []
  query : List (String × ValueExpr) := []
  header : List (String × ValueExpr) := []
  /-- The template params so far. -/
  filled : List String := []

/-- The values of a style; plain params are sent in the query. -/
def Draft.values (d : Draft) : ParamStyle → List (String × ValueExpr)
  | .template => d.template
  | .matrix => d.matrix
  | .header => d.header
  | _ => d.query

/-- A draft with one more value of a style. -/
def Draft.push (d : Draft) (style : ParamStyle) (entry : String × ValueExpr) : Draft :=
  match style with
  | .template => { d with template := d.template ++ [entry] }
  | .matrix => { d with matrix := d.matrix ++ [entry] }
  | .header => { d with header := d.header ++ [entry] }
  | _ => { d with query := d.query ++ [entry] }

/-- The argument for a param. -/
def argument (scope : NameScope) (p : Param) (type : ValueType) (source : String)
    (required : Bool) : Generating (Argument × NameScope) := do
  let (name, scope) ← claim scope (nameOf env p.name) source
  let doc ← if env.config.includeDocs then noticedText env p.docs else pure ""
  let shape := ValueShape.mk type p.repeating
  if required then
    return (⟨name, .value (shape false), .required, doc⟩, scope)
  match p.repeating, p.default with
  | false, some value =>
    let v ← valueExpr env p value type source
    return (⟨name, .value (shape false), .value v, doc⟩, scope)
  | _, _ => return (⟨name, .value (shape true), .nothing, doc⟩, scope)

/-- A draft with a param that is not there yet, as a fixed value or as an argument. -/
def supply (d : Draft) (p : Param) (source : String) (required : Bool) : Generating Draft := do
  let type ← valueType env p source
  match p.fixed with
  | some value => return d.push p.style (p.name, ← valueExpr env p value type source)
  | none =>
    let (arg, scope) ← argument env d.scope p type source required
    return { d.push p.style (p.name, .argument arg.name) with scope, args := d.args ++ [arg] }

/-- A draft with a param. A template param is taken once, and only if the URL has a place for it:
`left` are the placeholders that are left, and a resource type fills whatever it can. -/
def addParam (left : List String) (isType : Bool) (d : Draft) (p : Param) (source : String) :
    Generating Draft := do
  if p.style = .template then
    if (!left.contains p.name && !isType) || d.filled.contains p.name then
      modify (· ++ [.notPending p.name source])
      return d
    else supply env { d with filled := p.name :: d.filled } p source true
  else if (d.values p.style).any (·.1 = p.name) then return d
  else supply env d p source p.required

/-- The first template param with a name among those that items stand for; later items are not
looked at. -/
def findTemplate? (name : String) : List ParamItem → Except GenerationError (Option Param)
  | [] => .ok none
  | item :: rest => do
    let p ← paramOf env item
    if p.style = .template ∧ p.name = name then return some p else findTemplate? name rest

/-- The param for a placeholder that is left: one that a request declares, or else a text. -/
def placeholderDecl (methods : List (Placed Method)) (placeholder : String) :
    Except GenerationError Param := do
  let items := methods.flatMap fun m => (m.value.request.map (·.params)).getD []
  return (← findTemplate? env placeholder items).getD
    { name := placeholder, style := .template, required := true }

/-- The forms of a response, up to the first that fits all. -/
def upToUnconditional : List Choice → List Choice
  | [] => []
  | c :: rest => if c.mediaType.isNone then [c] else c :: upToUnconditional rest

/-- The representations that stand below a place. -/
def representationsAt (place : Place) (items : List RepresentationItem) :
    Except GenerationError (List (Placed Representation)) :=
  items.zipIdx.mapM fun (item, n) =>
    (env.resolution.representation (place.child (.representation n)) item).mapError .reference

/-- What is done with a response. -/
def branch (place : Place) (response : Response) : Except GenerationError Branch := do
  let reps ← representationsAt env place response.representations
  let choices := (preferred env (·.value.mediaType) reps).map fun rep =>
    Choice.mk rep.value.mediaType (modelOf env rep) (bodyType env rep)
  return ⟨response.status, upToUnconditional choices⟩

/-- What is done with the responses of a method; without any, one without a body is expected. -/
def branches (m : Placed Method) : Except GenerationError (List Branch) :=
  if m.value.responses.isEmpty then .ok [⟨[], []⟩]
  else m.value.responses.zipIdx.mapM fun (response, n) =>
    branch env (m.place.child (.response n)) response

/-- The media types of the responses of a method, the preferred ones first. -/
def accept (m : Placed Method) : Except GenerationError (List String) := do
  let reps ← m.value.responses.zipIdx.mapM fun (response, n) =>
    representationsAt env (m.place.child (.response n)) response.representations
  let found := reps.flatten.filterMap fun rep => rep.value.mediaType.filter (!·.isEmpty)
  return preferred env some found.eraseDups

/-- The documentation of an operation and its arguments. -/
def operationDoc (m : Method) (args : List Argument) : Generating (Option String) := do
  if env.config.includeDocs then
    let text ← noticedText env m.docs
    let described := args.filterMap fun a =>
      if a.doc.isEmpty then none
      else some ("    " ++ a.name ++ ": " ++ " ".intercalate (wordsOf a.doc))
    if described.isEmpty then return docstring text
    else
      let gap := if text.isEmpty then "" else "\n\n"
      return docstring (text ++ gap ++ "Args:\n" ++ "\n".intercalate described)
  else return none

/-- The body that a method sends, as the last argument. -/
def sentBody (m : Placed Method) (d : Draft) :
    Except GenerationError (Option SentBody × Draft) := do
  match m.value.request with
  | none => return (none, d)
  | some request =>
    let reps ← representationsAt env (m.place.child .request) request.representations
    match preferred env (·.value.mediaType) reps with
    | [] => return (none, d)
    | rep :: _ =>
      let (name, scope) ←
        claim d.scope "body" ("request body of method " ++ quoted m.value.label)
      let arg : Argument := ⟨name, .body (bodyType env rep), .required, ""⟩
      return (some ⟨name, rep.value.mediaType⟩, { d with scope, args := d.args ++ [arg] })

/-- A draft with the params of a request. -/
def addRequest (left : List String) (isType : Bool) (label : String) (d : Draft)
    (items : List ParamItem) : Generating Draft :=
  items.foldlM (fun d item => do
    let p ← paramOf env item
    addParam env left isType d p ("param " ++ quoted p.name ++ " of method " ++ quoted label)) d

/-- A draft in which a placeholder that is left is filled. -/
def addPlaceholder (left : List String) (isType : Bool) (className : String)
    (methods : List (Placed Method)) (d : Draft) (placeholder : String) : Generating Draft := do
  if d.filled.contains placeholder then return d
  let p ← placeholderDecl env methods placeholder
  addParam env left isType d p ("placeholder \x7b" ++ placeholder ++ "\x7d of " ++ className)

/-- A draft in which all placeholders that are left are filled. -/
def addPlaceholders (left : List String) (isType : Bool) (className : String)
    (methods : List (Placed Method)) (d : Draft) : Generating Draft :=
  left.foldlM (addPlaceholder env left isType className methods) d

/-- A draft with the params of the container itself, but for template params. -/
def addShared (left : List String) (isType : Bool) (className : String) (d : Draft)
    (items : List ParamItem) : Generating Draft :=
  items.foldlM (fun d item => do
    let p ← paramOf env item
    if p.style = .template then return d
    addParam env left isType d p ("param " ++ quoted p.name ++ " of " ++ className)) d

/-- The operation of a method; its name is claimed in `scope`. -/
def operation (c : Container) (className : String) (methods : List (Placed Method))
    (scope : NameScope) (m : Placed Method) : Generating (Operation × NameScope) := do
  let label := m.value.label
  let (name, scope) ←
    claim scope (nameOf env label) ("method " ++ quoted label ++ " of " ++ className)
  let left ← pending env (c.here :: c.above)
  let d : Draft := { scope := newScope env ("method " ++ className ++ "." ++ name) }
  let d ← addRequest env left c.isType label d ((m.value.request.map (·.params)).getD [])
  let d ← addPlaceholders env left c.isType className methods d
  let d ← addShared env left c.isType className d c.here.holder.params
  let (body, d) ← sentBody env m d
  let accept ← accept env m
  let branches ← branches env m
  let doc ← operationDoc env m.value d.args
  return ({
    name
    args := d.args
    verb := Case.upper m.value.name
    template := d.template
    matrix := d.matrix
    query := d.query
    header := d.header
    accept
    body
    branches
    doc }, scope)

/-- The operations of the methods of a container. -/
def operations (c : Container) (className : String) (methods : List (Placed Method)) :
    NameScope → List (Placed Method) → Generating (List Operation × NameScope)
  | scope, [] => return ([], scope)
  | scope, m :: rest => do
    let (op, scope) ← operation env c className methods scope m
    let (ops, scope) ← operations c className methods scope rest
    return (op :: ops, scope)

/-! ## Classes -/

/-- The classes of the types of a resource, each once. -/
def basesOf (c : Container) : Except GenerationError (List String) := do
  match c.here.holder with
  | .type _ => return []
  | .resource r => return (← r.types.mapM (classOfType env)).eraseDups

/-- The containers directly below one. -/
def childrenOf (c : Container) : List Container :=
  env.containers.filter fun child => (child.above.head?.map (·.place)) = some c.place

/-- The class of a container. -/
def resourceClass (c : Container) : Generating ResourceClass := do
  let name ← classAt env c.place
  let bases ← basesOf env c
  let nested ← (env.table.nestedIn c.place).mapM (modelClass env)
  let methods ← methodsOf env c
  let (operations, scope) ←
    operations env c name methods (newScope env ("class " ++ name)) methods
  let accessors ← namedAccessors env scope (withResources .own (childrenOf env c))
  return ⟨name, bases, ← docOf env c.here.holder.docs, nested, operations, accessors⟩

/-- The class that a client begins with. -/
def entryClass : Generating EntryClass := do
  let app := env.resolution.app
  let roots := app.resources.zipIdx.flatMap fun (group, n) =>
    withResources (.client (group.base.getD "")) <|
      env.containers.filter fun c =>
        c.above.isEmpty && c.place.document == app.baseUri && c.place.steps.head? == some (.group n)
  let name := env.config.clientName
  let accessors ← namedAccessors env (newScope env ("class " ++ name)) roots
  let doc :=
    (← docOf env app.docs).getD "\"\"\"Entry point for the described web application.\"\"\""
  return ⟨name, doc, accessors⟩

/-- Claims the name of the class of a container. -/
def claimClass (scope : NameScope) (c : Container) :
    Except GenerationError ((Place × String) × NameScope) := do
  let wanted := c.name ++ "Resource"
  match c.here.holder with
  | .type t =>
    let (name, scope) ← claim scope wanted ("resource_type " ++ quoted t.id)
    return ((c.place, name), scope)
  | .resource r =>
    let (name, scope) := scope.claimUnique wanted ("resource " ++ quoted (resourceLabel r))
    return ((c.place, name), scope)

/-- Claims the names of the classes of some containers. -/
def claimClasses (scope : NameScope) :
    List Container → Except GenerationError (List (Place × String))
  | [] => .ok []
  | c :: rest => do
    let (named, scope) ← claimClass scope c
    return named :: (← claimClasses scope rest)

/-- The documentation of the module, if it is wanted and there is any. -/
def moduleDoc : Generating (Option String) := do
  let docs := env.resolution.app.docs
  if docs.isEmpty then return none else docOf env docs

end Build

open Build in
/-- The client of a resolved description with the given types. -/
def buildModule (r : Resolution) (table : TypeTable) (config : ClientConfig) :
    Generating ClientModule := do
  let containers := r.containers
  let classNames ← claimClasses table.scope containers
  let env : Env := ⟨r, table, config, classNames, containers⟩
  let doc ← moduleDoc env
  let models ← table.moduleTypes.mapM (modelClass env)
  let ordered := containers.filter (·.isType) ++ containers.filter (!·.isType)
  let classes ← ordered.mapM (resourceClass env)
  let entry ← entryClass env
  return {
    doc := doc.getD "\"\"\"Client for the described web application.\"\"\""
    isAsync := config.isAsync
    enums := table.enums
    models
    classes
    entry }

end Wadl
