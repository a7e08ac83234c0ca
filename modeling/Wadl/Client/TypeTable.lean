import Wadl.Client.Config
import Wadl.Client.Signature
import Wadl.Resolution.Container

/-!
# The types of a client

`unify` gives one type to all representations of the same form and names it: after its identifier,
after its identifiers, or after the places where it is used. Each set of options becomes an
`EnumType`. The names are taken in one scope, in which those that generated source uses itself are
reserved.
-/

namespace Wadl

/-- The names that generated source imports or uses. -/
def importedNames : List String :=
  ["annotations", "datetime", "enum", "Any", "BaseModel", "ConfigDict", "Field", "Transport",
    "AsyncTransport", "build_url", "join_url", "build_headers", "encode_body", "decode_body",
    "media_type_matches", "ResponseError", "UnexpectedContentType", "UnexpectedStatus"]

/-- The class in which a type stands. -/
structure Owner where
  place : Place
  /-- The name that the words of the container make. -/
  name : String
  deriving DecidableEq, Repr

/-- The type of all representations of one form. -/
structure CanonicalType where
  name : String
  signature : String
  /-- The params of the first member, in the order of the document. -/
  fields : List Param
  members : List (Placed Representation)
  /-- The names that the places of use make, sorted. -/
  sites : List String
  /-- Whether the members have one identifier. -/
  declared : Bool
  /-- The class in which the type stands, if it does not stand in the module. -/
  owner : Option Owner
  deriving Repr

/-- A set of options. -/
structure EnumType where
  name : String
  /-- The param that has the options. -/
  param : String
  /-- The name of each value. -/
  members : List (String × String)
  deriving DecidableEq, Repr

/-- The values of an enum. -/
def EnumType.values (e : EnumType) : List String := e.members.map (·.2)

/-- The types and enums of a client. -/
structure TypeTable where
  scope : NameScope
  types : List CanonicalType
  enums : List EnumType
  deriving Repr

namespace TypeTable

/-- The type of the representation at a place, unless it has no fields. -/
def typeAt? (t : TypeTable) (place : Place) : Option CanonicalType :=
  t.types.find? fun c => c.members.any (·.place = place)

/-- The enum of the options of a param. -/
def enumFor? (t : TypeTable) (p : Param) : Option EnumType :=
  if p.options.isEmpty then none
  else t.enums.find? fun e => e.param = p.name ∧ e.values = p.options.map (·.value)

/-- The types that stand in the class of a container. -/
def nestedIn (t : TypeTable) (place : Place) : List CanonicalType :=
  t.types.filter fun c => c.owner.any (·.place = place)

/-- The types that stand in the module. -/
def moduleTypes (t : TypeTable) : List CanonicalType := t.types.filter (·.owner.isNone)

/-- The names of all types and enums. -/
def names (t : TypeTable) : List String := t.types.map (·.name) ++ t.enums.map (·.name)

end TypeTable

namespace Unify

/-! ## Groups -/

/-- The representations of one form, and where they are used. -/
structure Group where
  signature : String
  members : List (Placed Representation)
  sites : List String
  /-- The methods that use them. -/
  methods : List Place
  /-- The containers of these methods. -/
  containers : List Station
  deriving Repr

/-- The sorted values of a list, each once. -/
def sortedDistinct (xs : List String) : List String :=
  (sorted (fun a b => (compare a b).isLE) xs).eraseDups

/-- The identifiers of the members, sorted. -/
def Group.ids (g : Group) : List String :=
  sortedDistinct (g.members.filterMap fun m => m.value.id.filter (!·.isEmpty))

/-- The groups so far, in the order of their first members. -/
abbrev Groups := List Group

/-- Groups with one more representation, unless it is in one already or has no params; also gives
the signature. -/
def add (r : Resolution) (groups : Groups) (rep : Placed Representation) :
    Except GenerationError (Groups × Option String) := do
  if rep.value.params.isEmpty then return (groups, none)
  match groups.find? fun g => g.members.any (·.place = rep.place) with
  | some g => return (groups, some g.signature)
  | none =>
    let signature ← (r.signature rep.value.params).mapError .reference
    if groups.any (·.signature = signature) then
      return (groups.map fun g =>
        if g.signature = signature then { g with members := g.members ++ [rep] } else g,
        some signature)
    else return (groups ++ [⟨signature, [rep], [], [], []⟩], some signature)

/-- A group that is used once more. -/
def Group.use (g : Group) (u : Usage) : Group :=
  { g with
    sites := g.sites ++ [u.site]
    methods := if g.methods.contains u.method.place then g.methods
      else g.methods ++ [u.method.place]
    containers :=
      if g.containers.any (·.place = u.container.place) then g.containers
      else g.containers ++ [u.container.here] }

/-- Groups with a representation that is used. -/
def addUsage (r : Resolution) (groups : Groups) (u : Usage) : Except GenerationError Groups := do
  let (groups, signature) ← add r groups u.representation
  match signature with
  | none => return groups
  | some s => return groups.map fun g => if g.signature = s then g.use u else g

/-- The groups of all representations: first those of the top level, then those that are used. -/
def groupsOf (r : Resolution) : Except GenerationError Groups := do
  let declared ← r.app.representations.zipIdx.foldlM (fun groups (item, n) => do
    let rep ← (r.representation ⟨r.app.baseUri, [.representation n]⟩ item).mapError .reference
    return (← add r groups rep).1) []
  r.foldUsages .reference (addUsage r) declared

/-! ## Names -/

/-- The class in which the type of a group stands: that of the only method that uses it, if it has
no identifier and the settings ask for it. -/
def Group.owner? (g : Group) (config : ClientConfig) : Option Owner :=
  match g.containers with
  | [c] =>
    if config.inlineAnonymous && g.ids.isEmpty && g.methods.length == 1 then
      some ⟨c.place, c.name⟩
    else none
  | _ => none

/-- The least of some texts. -/
def least : List String → Option String
  | [] => none
  | s :: rest =>
    match least rest with
    | some t => some (if (compare t s).isLT then t else s)
    | none => some s

/-- The name that a group without exactly one identifier should have. -/
def Group.baseName (g : Group) : String :=
  match g.ids with
  | [] => (least g.sites).getD "Representation"
  | ids => "Or".intercalate (ids.map pascal)

/-- Takes the names of the groups with exactly one identifier. -/
def nameDeclared (scope : NameScope) : Groups →
    Except GenerationError (NameScope × List (String × String))
  | [] => .ok (scope, [])
  | g :: rest =>
    match g.ids with
    | [id] => do
      let (name, scope) ←
        (scope.claim (pascal id) ("representation " ++ quoted id)).mapError .clash
      let (scope, named) ← nameDeclared scope rest
      return (scope, (g.signature, name) :: named)
    | _ => nameDeclared scope rest

/-- The scopes of the classes in which types stand. -/
abbrev ClassScopes := List (Place × NameScope)

/-- Takes the names of the other groups, each in the module or in a class. -/
def nameOthers (config : ClientConfig) (scope : NameScope) (classes : ClassScopes) :
    Groups → NameScope × List (String × String)
  | [] => (scope, [])
  | g :: rest =>
    match g.ids with
    | [_] => nameOthers config scope classes rest
    | _ =>
      let base := g.baseName
      let source := "representations used by " ++ base
      match g.owner? config with
      | some owner =>
        let inner := (classes.lookup owner.place).getD
          { label := "class " ++ owner.name, escapes := config.escapeReserved }
        let (name, inner) := inner.claimUnique base source
        let (scope, named) :=
          nameOthers config scope ((owner.place, inner) :: classes) rest
        (scope, (g.signature, name) :: named)
      | none =>
        let (name, scope) := scope.claimUnique base source
        let (scope, named) := nameOthers config scope classes rest
        (scope, (g.signature, name) :: named)

/-- The type of a group. -/
def Group.type (r : Resolution) (config : ClientConfig) (names : List (String × String))
    (g : Group) : Except GenerationError CanonicalType := do
  let items := (g.members.head?.map (·.value.params)).getD []
  let fields ← (items.mapM r.param).mapError .reference
  return {
    name := (names.lookup g.signature).getD ""
    signature := g.signature
    fields
    members := g.members
    sites := sortedDistinct g.sites
    declared := g.ids.length == 1
    owner := g.owner? config }

/-! ## Enums -/

/-- The names of values; two values cannot have one name. -/
def enumMembers (param : String) : (seen : List (String × String)) → List String →
    Except GenerationError (List (String × String))
  | seen, [] => .ok seen
  | seen, value :: rest =>
    let member := constant value
    match seen.lookup member with
    | some first =>
      .error (.clash ⟨member, "option " ++ quoted first,
        "option " ++ quoted value ++ " of param " ++ quoted param⟩)
    | none => enumMembers param (seen ++ [(member, value)]) rest

/-- A table with the enum of a param, if the param has options that are new. `context` is put before
the name of the enum if that is taken. -/
def addEnum (context : String) (t : TypeTable) (p : Param) : Except GenerationError TypeTable := do
  if p.options.isEmpty || (t.enumFor? p).isSome then return t
  let members ← enumMembers p.name [] (p.options.map (·.value))
  let name := pascal p.name
  let base := if name.isEmpty then "Value" else name
  let base := if t.scope.contains base then context ++ base else base
  let (name, scope) := t.scope.claimUnique base ("options of param " ++ quoted p.name)
  return { t with scope, enums := t.enums ++ [⟨name, p.name, members⟩] }

/-- A table with the enums of some params, which may be references. -/
def addEnums (r : Resolution) (context : String) (t : TypeTable) (items : List ParamItem) :
    Except GenerationError TypeTable :=
  items.foldlM (fun t item => do addEnum context t (← (r.param item).mapError .reference)) t

/-- A table with the enums of a method of a container. -/
def addMethodEnums (r : Resolution) (c : Container) (t : TypeTable) (m : Method) :
    Except GenerationError TypeTable := do
  let context := c.name ++ pascal (firstNonEmpty [m.id, some m.name])
  let t ← match m.request with
    | some request => addEnums r context t request.params
    | none => pure t
  m.responses.foldlM (fun t response => addEnums r context t response.params) t

/-- A table with the enums of a container. -/
def addContainerEnums (r : Resolution) (t : TypeTable) (c : Container) :
    Except GenerationError TypeTable := do
  let t ← addEnums r c.name t c.here.holder.params
  let methods ← (r.methods c).mapError .reference
  methods.foldlM (fun t m => addMethodEnums r c t m.value) t

/-- A table with all enums. -/
def collectEnums (r : Resolution) (t : TypeTable) : Except GenerationError TypeTable := do
  let t ← t.types.foldlM (fun t c => c.fields.foldlM (addEnum c.name) t) t
  r.containers.foldlM (addContainerEnums r) t

/-- The scope of the module before any type has a name. -/
def moduleScope (config : ClientConfig) : NameScope :=
  let start : NameScope := { label := "module", escapes := config.escapeReserved }
  (importedNames.foldl (fun s name => s.reserve name "generated imports") start).reserve
    config.clientName "client class"

/-- What there is to tell about a type. -/
def unifiedNotice (c : CanonicalType) : Option Notice :=
  if c.members.length > 1 then some (.unified c.members.length c.name) else none

end Unify

open Unify in
/-- The types and enums of a client. -/
def unify (r : Resolution) (config : ClientConfig) : Generating TypeTable := do
  let groups ← groupsOf r
  let (scope, declared) ← nameDeclared (moduleScope config) groups
  let (scope, others) := nameOthers config scope [] groups
  let types ← groups.mapM fun g => g.type r config (declared ++ others)
  modify (· ++ types.filterMap unifiedNotice)
  collectEnums r ⟨scope, types, []⟩

end Wadl
