import Wadl.Naming.Style
import Wadl.Resolution.Basic

/-!
# Containers and usages

A client has a class for each resource and each resource type, at any depth. A `Container` is one of
them, with the words that name it and the containers around it. A `Usage` is a representation at a
place where a method of a container takes or answers it.
-/

namespace Wadl

/-- A resource or a resource type. -/
inductive Holder where
  | resource (r : Resource)
  | type (t : ResourceType)
  deriving Repr

namespace Holder

/-- Whether this is a resource type. -/
def isType : Holder → Bool
  | resource _ => false
  | type _ => true

/-- The resource itself, if it is one. -/
def resource? : Holder → Option Resource
  | resource r => some r
  | type _ => none

/-- The params. -/
def params : Holder → List ParamItem
  | resource r => r.params
  | type t => t.params

/-- The methods. -/
def methods : Holder → List MethodItem
  | resource r => r.methods
  | type t => t.methods

/-- The resources below. -/
def resources : Holder → List Resource
  | resource r => r.resources
  | type t => t.resources

/-- The documentation. -/
def docs : Holder → List Doc
  | resource r => r.docs
  | type t => t.docs

end Holder

/-- A resource or a resource type at its place, with the words that name it. -/
structure Station where
  holder : Holder
  place : Place
  segments : List String
  deriving Repr

/-- The name that the words of a station make. -/
def Station.name (s : Station) : String :=
  let name := pascal (" ".intercalate s.segments)
  if name.isEmpty then "Root" else name

/-- A station with those around it, the nearest first. -/
structure Container where
  here : Station
  above : List Station
  deriving Repr

namespace Container

/-- Whether this is a resource type. -/
def isType (c : Container) : Bool := c.here.holder.isType

/-- The place of the resource or the resource type. -/
def place (c : Container) : Place := c.here.place

/-- The name that the words of the container make. -/
def name (c : Container) : String := c.here.name

/-- The resources from the outermost one down to this one. -/
def chain (c : Container) : List Resource :=
  ((c.here :: c.above).filterMap (·.holder.resource?)).reverse

/-- The container around this one. -/
def parent? (c : Container) : Option Container :=
  match c.above with
  | [] => none
  | s :: rest => some ⟨s, rest⟩

end Container

/-! ## Words -/

/-- The words that name a resource: its identifier, else the fixed parts of its path, else `by` and
its placeholders. -/
def pathSegments (id path : Option String) : List String :=
  match id.filter (!·.isEmpty) with
  | some i => [i]
  | none =>
    let fixed := (piecesAt '/' (path.getD "")).filter fun s =>
      !s.isEmpty && !s.toList.contains '\x7b'
    if fixed.isEmpty then
      match placeholdersOf (path.getD "") with
      | [] => []
      | names => "by" :: names
    else fixed

/-- The words that name a resource. -/
def Resource.segments (r : Resource) : List String := pathSegments r.id r.path

/-! ## All containers -/

mutual

/-- A resource and those below it, as containers. `inherited` are the words of what is around it,
which name it too unless it has an identifier. -/
def Resource.containers (above : List Station) (inherited : List String) (place : Place) :
    Resource → List Container
  | ⟨id, path, types, queryType, params, methods, resources, docs⟩ =>
    let own := pathSegments id path
    let segments := if (id.getD "").isEmpty then inherited ++ own else own
    let here : Station :=
      ⟨.resource ⟨id, path, types, queryType, params, methods, resources, docs⟩, place, segments⟩
    ⟨here, above⟩ :: containersBelow (here :: above) segments place 0 resources

/-- Resources below a place, as containers; `n` counts those before them. -/
def containersBelow (above : List Station) (inherited : List String) (place : Place) (n : Nat) :
    List Resource → List Container
  | [] => []
  | r :: rs =>
    r.containers above inherited (place.child (.resource n)) ++
      containersBelow above inherited place (n + 1) rs

end

/-- A resource type and the resources below it, as containers. -/
def ResourceType.containers (t : ResourceType) (place : Place) : List Container :=
  let here : Station := ⟨.type t, place, [t.id]⟩
  ⟨here, []⟩ :: containersBelow [here] [t.id] place 0 t.resources

/-- The resources of a description, as containers. -/
def Application.resourceContainers (app : Application) : List Container :=
  app.resources.zipIdx.flatMap fun (group, n) =>
    containersBelow [] [] ⟨app.baseUri, [.group n]⟩ 0 group.resources

/-- Values with their places, each place once. -/
def distinctPlaces {α : Type} : List (Placed α) → List (Placed α)
  | [] => []
  | p :: rest => p :: (distinctPlaces rest).filter (·.place ≠ p.place)

namespace Resolution

/-- The resource types of the description, and those of other documents. -/
def resourceTypes (r : Resolution) : List (Placed ResourceType) :=
  distinctPlaces
    ((r.app.resourceTypes.zipIdx.map fun (t, n) => ⟨t, ⟨r.app.baseUri, [.resourceType n]⟩⟩) ++
      r.externalResourceTypes)

/-- The resource types and all below them, as containers. -/
def typeContainers (r : Resolution) : List Container :=
  r.resourceTypes.flatMap fun t => t.value.containers t.place

/-- All containers: those of resource types first. -/
def containers (r : Resolution) : List Container := r.typeContainers ++ r.app.resourceContainers

end Resolution

/-! ## Methods and usages -/

/-- The word for a method: its identifier, else its verb in small letters. -/
def Method.label (m : Method) : String :=
  match m.id.filter (!·.isEmpty) with
  | some id => id
  | none => Case.lower m.name

/-- Whether a representation is taken or answered. -/
inductive Role where
  | request
  | response
  deriving DecidableEq, Repr

/-- The word for a role. -/
def Role.word : Role → String
  | request => "Request"
  | response => "Response"

/-- A representation where a method takes or answers it. -/
structure Usage where
  representation : Placed Representation
  container : Container
  method : Placed Method
  role : Role
  deriving Repr

/-- The name that a representation gets from where it is used. -/
def siteName (container : Container) (method : Method) (role : Role) : String :=
  pascal (" ".intercalate (container.here.segments ++ [method.label, role.word]))

/-- The name that a representation gets from where it is used. -/
def Usage.site (u : Usage) : String := siteName u.container u.method.value u.role

namespace Resolution

/-- The methods of a container. -/
def methods (r : Resolution) (c : Container) : Except ResolveError (List (Placed Method)) :=
  c.here.holder.methods.zipIdx.mapM fun (item, n) =>
    r.method (c.place.child (.method n)) item

/-- The representations that a method takes and answers, each at its place. -/
def bodyItems (m : Placed Method) : List (Place × RepresentationItem × Role) :=
  let listed (place : Place) (items : List RepresentationItem) (role : Role) :=
    items.zipIdx.map fun (item, n) => (place.child (.representation n), item, role)
  (match m.value.request with
    | some request => listed (m.place.child .request) request.representations .request
    | none => []) ++
  m.value.responses.zipIdx.flatMap fun (response, n) =>
    listed (m.place.child (.response n)) response.representations .response

/-- Goes through all representations that methods take and answer, in the order of the
containers. -/
def foldUsages {σ ε : Type} (r : Resolution) (lift : ResolveError → ε)
    (visit : σ → Usage → Except ε σ) (start : σ) : Except ε σ :=
  r.containers.foldlM (fun s c => do
    let methods ← (r.methods c).mapError lift
    methods.foldlM (fun s m =>
      (bodyItems m).foldlM (fun s (place, item, role) => do
        let rep ← (r.representation place item).mapError lift
        visit s ⟨rep, c, m, role⟩) s) s) start

/-- All representations that methods take and answer, in the order of the containers. -/
def usages (r : Resolution) : Except ResolveError (List Usage) :=
  r.foldUsages id (fun found u => .ok (found ++ [u])) []

end Resolution

end Wadl
