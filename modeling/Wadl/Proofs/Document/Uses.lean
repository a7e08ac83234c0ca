import Wadl.Proofs.Document.Parts
import Wadl.Proofs.Document.Reading

/-!
# What references are used for

Each part of a description that can be a reference asks for a definition of one kind: a param for a
param, a type of a resource for a resource type. `Application.uses` lists the references of a
description together with these kinds. In a description that is read each reference is of the kind
that is asked for (`readDescription_kinded`), and the uses in a part are uses in the whole
(`Part.uses_at?`).
-/

namespace Wadl

/-- A reference where a definition of a kind is asked for. -/
structure Use where
  kind : DefinitionKind
  ref : Reference
  deriving DecidableEq, Repr

/-! ## The uses of a description -/

/-- A link asks for the type of the resource that it leads to. -/
def Link.uses (l : Link) : List Use := l.resourceType.toList.map (⟨.resourceType, ·⟩)

def Param.uses (p : Param) : List Use := p.links.flatMap Link.uses

/-- A reference in the place of a param asks for a param. -/
def ParamItem.uses : ParamItem → List Use
  | .inline p => p.uses
  | .ref r _ => [⟨.param, r⟩]

/-- The uses in a representation, which are those in its params. -/
def Representation.uses (r : Representation) : List Use := r.params.flatMap ParamItem.uses

/-- A reference in the place of a representation asks for a representation. -/
def RepresentationItem.uses : RepresentationItem → List Use
  | .inline r => r.uses
  | .ref r _ => [⟨.representation, r⟩]

def Request.uses (r : Request) : List Use :=
  r.params.flatMap ParamItem.uses ++ r.representations.flatMap RepresentationItem.uses

def Response.uses (r : Response) : List Use :=
  r.params.flatMap ParamItem.uses ++ r.representations.flatMap RepresentationItem.uses

/-- The uses in the request and the responses of a method. -/
def Method.uses (m : Method) : List Use :=
  m.request.toList.flatMap Request.uses ++ m.responses.flatMap Response.uses

def MethodItem.uses : MethodItem → List Use
  | .inline m => m.uses
  | .ref r => [⟨.method, r⟩]

mutual

/-- The uses in a resource and those below it. -/
def Resource.uses : Resource → List Use
  | ⟨_, _, types, _, params, methods, resources, _⟩ =>
    types.map (⟨.resourceType, ·⟩) ++ params.flatMap ParamItem.uses ++
      methods.flatMap MethodItem.uses ++ resourceUses resources

/-- The uses in some resources and those below them. -/
def resourceUses : List Resource → List Use
  | [] => []
  | r :: rs => r.uses ++ resourceUses rs

end

/-- The uses in a resource type and in the resources below it. -/
def ResourceType.uses (t : ResourceType) : List Use :=
  t.params.flatMap ParamItem.uses ++ t.methods.flatMap MethodItem.uses ++ resourceUses t.resources

/-- All references of a description, with the kinds that are asked for. -/
def Application.uses (app : Application) : List Use :=
  app.resources.flatMap (fun g => resourceUses g.resources) ++
    app.resourceTypes.flatMap ResourceType.uses ++
    app.representations.flatMap RepresentationItem.uses ++ app.params.flatMap ParamItem.uses ++
    app.methods.flatMap Method.uses

/-- The uses in what an identifier can name. -/
def Definition.uses : Definition → List Use
  | resource r => r.uses
  | resourceType t => t.uses
  | representation item => item.uses
  | param item => item.uses
  | method m => m.uses

/-! ## Uses and references -/

/-- The uses of a part, without the kinds they want, are its references; so it is for each kind of
part below. -/
theorem Link.uses_ref (l : Link) : l.uses.map (·.ref) = l.references := by
  rw [Link.uses, List.map_map]
  exact List.map_id _

theorem Param.uses_ref (p : Param) : p.uses.map (·.ref) = p.references := by
  simp only [Param.uses, Param.references, List.map_flatMap, Link.uses_ref]

theorem ParamItem.uses_ref : ∀ item : ParamItem, item.uses.map (·.ref) = item.references
  | .inline p => p.uses_ref
  | .ref _ _ => rfl

theorem Representation.uses_ref (r : Representation) : r.uses.map (·.ref) = r.references := by
  simp only [Representation.uses, Representation.references, List.map_flatMap, ParamItem.uses_ref]

theorem RepresentationItem.uses_ref :
    ∀ item : RepresentationItem, item.uses.map (·.ref) = item.references
  | .inline r => r.uses_ref
  | .ref _ _ => rfl

theorem Request.uses_ref (r : Request) : r.uses.map (·.ref) = r.references := by
  simp only [Request.uses, Request.references, List.map_append, List.map_flatMap,
    ParamItem.uses_ref, RepresentationItem.uses_ref]

theorem Response.uses_ref (r : Response) : r.uses.map (·.ref) = r.references := by
  simp only [Response.uses, Response.references, List.map_append, List.map_flatMap,
    ParamItem.uses_ref, RepresentationItem.uses_ref]

theorem Method.uses_ref (m : Method) : m.uses.map (·.ref) = m.references := by
  simp only [Method.uses, Method.references, List.map_append, List.map_flatMap, Request.uses_ref,
    Response.uses_ref]

theorem MethodItem.uses_ref : ∀ item : MethodItem, item.uses.map (·.ref) = item.references
  | .inline m => m.uses_ref
  | .ref _ => rfl

mutual

/-- The uses of a resource, with all below it, have its references in the same order. -/
theorem Resource.uses_ref : ∀ r : Resource, r.uses.map (·.ref) = r.references
  | ⟨_, _, types, _, params, methods, resources, _⟩ => by
    simp only [Resource.uses, Resource.references, List.map_append, List.map_map, List.map_flatMap,
      Function.comp_def, List.map_id', ParamItem.uses_ref, MethodItem.uses_ref,
      resourceUses_ref resources]

theorem resourceUses_ref :
    ∀ rs : List Resource, (resourceUses rs).map (·.ref) = resourceReferences rs
  | [] => rfl
  | r :: rs => by
    rw [resourceUses, resourceReferences, List.map_append, Resource.uses_ref r, resourceUses_ref rs]

end

theorem ResourceType.uses_ref (t : ResourceType) : t.uses.map (·.ref) = t.references := by
  simp only [ResourceType.uses, ResourceType.references, List.map_append, List.map_flatMap,
    ParamItem.uses_ref, MethodItem.uses_ref, resourceUses_ref]

/-- The uses of a description are its references, in their order. -/
theorem Application.uses_ref (app : Application) : app.uses.map (·.ref) = app.references := by
  simp only [Application.uses, Application.references, List.map_append,
    List.map_flatMap, resourceUses_ref,
    ResourceType.uses_ref, RepresentationItem.uses_ref, ParamItem.uses_ref, Method.uses_ref]

/-- The uses of a definition have its references. -/
theorem Definition.uses_ref : ∀ d : Definition, d.uses.map (·.ref) = d.references
  | .resource r => r.uses_ref
  | .resourceType t => t.uses_ref
  | .representation item => item.uses_ref
  | .param item => item.uses_ref
  | .method m => m.uses_ref

/-! ## Uses in parts -/

/-- The uses of resources are those of each of them, in order. -/
theorem resourceUses_eq_flatMap : ∀ rs : List Resource, resourceUses rs = rs.flatMap Resource.uses
  | [] => rfl
  | r :: rs => by rw [resourceUses, List.flatMap_cons, resourceUses_eq_flatMap rs]

theorem Resource.uses_eq (r : Resource) : r.uses =
    r.types.map (⟨.resourceType, ·⟩) ++ r.params.flatMap ParamItem.uses ++
      r.methods.flatMap MethodItem.uses ++ r.resources.flatMap Resource.uses := by
  cases r
  rw [Resource.uses, resourceUses_eq_flatMap]

/-- A resource uses its types as resource types. -/
theorem Resource.type_uses {r : Resource} {ref : Reference} (h : ref ∈ r.types) :
    ⟨.resourceType, ref⟩ ∈ r.uses := by
  simp only [r.uses_eq, List.mem_append, List.mem_map_of_mem h, true_or]

theorem Resource.params_uses (r : Resource) : r.params.flatMap ParamItem.uses ⊆ r.uses :=
  fun _ hu => by
  simp only [r.uses_eq, List.mem_append, hu, or_true, true_or]

theorem Resource.methods_uses (r : Resource) : r.methods.flatMap MethodItem.uses ⊆ r.uses :=
  fun _ hu => by
  simp only [r.uses_eq, List.mem_append, hu, or_true, true_or]

theorem Resource.resources_uses (r : Resource) : r.resources.flatMap Resource.uses ⊆ r.uses :=
  fun _ hu => by
  simp only [r.uses_eq, List.mem_append, hu, or_true]

theorem Method.request_uses {m : Method} {request : Request} (h : m.request = some request) :
    request.uses ⊆ m.uses :=
  fun _ hu => List.mem_append_left _ (List.mem_flatMap.2 ⟨request, Option.mem_toList.2 h, hu⟩)

theorem Method.response_uses {m : Method} {response : Response} (h : response ∈ m.responses) :
    response.uses ⊆ m.uses :=
  fun _ hu => List.mem_append_right _ (List.mem_flatMap.2 ⟨response, h, hu⟩)

/-- A method uses what the params of its request use. -/
theorem Method.requestParams_uses (m : Method) :
    ((m.request.map (·.params)).getD []).flatMap ParamItem.uses ⊆ m.uses := by
  cases h : m.request with
  | none => exact List.nil_subset _
  | some request => exact fun _ hu => Method.request_uses h (List.mem_append_left _ hu)

/-- A method uses what the bodies of its request use. -/
theorem Method.requestBodies_uses {m : Method} {request : Request} (h : m.request = some request) :
    request.representations.flatMap RepresentationItem.uses ⊆ m.uses :=
  fun _ hu => Method.request_uses h (List.mem_append_right _ hu)

/-- A method uses what the params of its responses use. -/
theorem Method.responseParams_uses {m : Method} {response : Response} (h : response ∈ m.responses) :
    response.params.flatMap ParamItem.uses ⊆ m.uses :=
  fun _ hu => Method.response_uses h (List.mem_append_left _ hu)

/-- A method uses what the bodies of its responses use. -/
theorem Method.responseBodies_uses {m : Method} {response : Response} (h : response ∈ m.responses) :
    response.representations.flatMap RepresentationItem.uses ⊆ m.uses :=
  fun _ hu => Method.response_uses h (List.mem_append_right _ hu)

namespace Application

variable {app : Application}

theorem group_uses {g : ResourceGroup} (h : g ∈ app.resources) :
    resourceUses g.resources ⊆ app.uses := by
  intro u hu
  have hu := (List.mem_flatMap (f := fun g => resourceUses g.resources)).2 ⟨g, h, hu⟩
  simp only [uses, List.mem_append, hu, true_or]

theorem resourceType_uses {t : ResourceType} (h : t ∈ app.resourceTypes) : t.uses ⊆ app.uses := by
  intro u hu
  have hu := List.mem_flatMap.2 ⟨t, h, hu⟩
  simp only [uses, List.mem_append, hu, or_true, true_or]

theorem representation_uses {item : RepresentationItem} (h : item ∈ app.representations) :
    item.uses ⊆ app.uses := by
  intro u hu
  have hu := List.mem_flatMap.2 ⟨item, h, hu⟩
  simp only [uses, List.mem_append, hu, or_true, true_or]

theorem param_uses {item : ParamItem} (h : item ∈ app.params) : item.uses ⊆ app.uses := by
  intro u hu
  have hu := List.mem_flatMap.2 ⟨item, h, hu⟩
  simp only [uses, List.mem_append, hu, or_true, true_or]

theorem method_uses {m : Method} (h : m ∈ app.methods) : m.uses ⊆ app.uses := by
  intro u hu
  have hu := List.mem_flatMap.2 ⟨m, h, hu⟩
  simp only [uses, List.mem_append, hu, or_true]

end Application

/-- The uses in a part of a description. -/
def Part.uses : Part → List Use
  | application app => app.uses
  | group g => g.resources.flatMap Resource.uses
  | resource r => r.uses
  | resourceType t => t.uses
  | representation item => item.uses
  | param item => item.uses
  | method item => item.uses
  | request r => r.uses
  | response r => r.uses

/-- Each of some parts has its uses among those of all. -/
theorem uses_of_getElem? {α : Type} {uses : α → List Use} {xs : List α} {n : Nat} {x : α}
    (h : xs[n]? = some x) : uses x ⊆ xs.flatMap uses :=
  fun _ hu => List.mem_flatMap.2 ⟨x, List.mem_of_getElem? h, hu⟩

/-- The uses in a child of a part are uses in the part. -/
theorem Part.uses_child? {p q : Part} {s : Step} (h : p.child? s = some q) : q.uses ⊆ p.uses := by
  intro u hu
  unfold child? at h
  split at h <;> try obtain ⟨x, hx, rfl⟩ := Option.map_eq_some_iff.1 h
  case h_1 app n =>
    refine Application.group_uses (List.mem_of_getElem? hx) ?_
    rwa [resourceUses_eq_flatMap]
  case h_2 app n => exact Application.resourceType_uses (List.mem_of_getElem? hx) hu
  case h_3 app n => exact Application.representation_uses (List.mem_of_getElem? hx) hu
  case h_4 app n => exact Application.param_uses (List.mem_of_getElem? hx) hu
  case h_5 app n => exact Application.method_uses (List.mem_of_getElem? hx) hu
  case h_6 g n => exact uses_of_getElem? hx hu
  case h_7 r n => exact r.resources_uses (uses_of_getElem? hx hu)
  case h_8 r n => exact r.methods_uses (uses_of_getElem? hx hu)
  case h_9 t n =>
    refine List.mem_append_right _ ?_
    rw [resourceUses_eq_flatMap]
    exact uses_of_getElem? hx hu
  case h_10 t n => exact List.mem_append_left _ (List.mem_append_right _ (uses_of_getElem? hx hu))
  case h_11 m => exact Method.request_uses hx hu
  case h_12 m n => exact Method.response_uses (List.mem_of_getElem? hx) hu
  case h_13 r n => exact List.mem_append_right _ (uses_of_getElem? hx hu)
  case h_14 r n => exact List.mem_append_right _ (uses_of_getElem? hx hu)
  case h_15 => cases h

/-- The uses in a part that steps lead to are uses in the part where they start. -/
theorem Part.uses_at? {p q : Part} {steps : List Step} (h : p.at? steps = some q) :
    q.uses ⊆ p.uses := by
  refine List.foldlRecOn steps _ (motive := fun o => ∀ q, o = some q → q.uses ⊆ p.uses) ?_ ?_ q h
  · intro q hq
    rw [Option.some.inj hq]
    exact List.Subset.refl _
  · intro o ih s _ q hq
    obtain ⟨r, hr, hchild⟩ := Option.bind_eq_some_iff.1 hq
    exact List.Subset.trans (uses_child? hchild) (ih r hr)

/-- A definition has the same uses as a part of a description. -/
theorem Definition.part_uses : ∀ d : Definition, d.part.uses = d.uses
  | .resource _ => rfl
  | .resourceType _ => rfl
  | .representation _ => rfl
  | .param _ => rfl
  | .method _ => rfl

/-- The uses in what an identifier names are uses in the description. -/
theorem Application.entry_uses {app : Application} {e : Entry} (h : e ∈ app.entries) :
    e.definition.uses ⊆ app.uses := by
  rw [← Definition.part_uses]
  exact Part.uses_at? (Application.entry_at h)

/-! ## Kinds -/

/-- References of the kinds that are asked for. -/
def AllKinded (uses : List Use) : Prop := ∀ u ∈ uses, u.ref.kind = u.kind

theorem allKinded_append {us vs : List Use} : AllKinded (us ++ vs) ↔ AllKinded us ∧ AllKinded vs :=
  List.forall_mem_append

theorem allKinded_flatMap {α : Type} {uses : α → List Use} {xs : List α} :
    AllKinded (xs.flatMap uses) ↔ ∀ x ∈ xs, AllKinded (uses x) :=
  List.forall_mem_flatMap

/-- A description whose references are of the kinds that are asked for. -/
def Application.Kinded (app : Application) : Prop := AllKinded app.uses

section Sound

variable {c : Criteria}

/-- A sound reference names its target as the kind that it wants. -/
theorem Reference.Sound.kinded {kind : DefinitionKind} {r : Reference} (h : r.Sound c kind) :
    AllKinded [⟨kind, r⟩] := List.forall_mem_singleton.2 h.1

theorem Link.Sound.kinded {l : Link} (h : l.Sound c) : AllKinded l.uses := by
  intro u hu
  obtain ⟨r, hr, rfl⟩ := List.mem_map.1 hu
  exact (h.target r (Option.mem_toList.1 hr)).1

theorem Param.Sound.kinded {p : Param} (h : p.Sound c) : AllKinded p.uses :=
  allKinded_flatMap.2 fun l hl => (h.links l hl).kinded

theorem ParamItem.Sound.kinded {location : ElementKind} {item : ParamItem}
    (h : item.Sound c location) : AllKinded item.uses := by
  cases item with
  | inline p => exact (h.inline p rfl).kinded
  | ref r id => exact (h.ref r id rfl).1.kinded

theorem ParamsSound.kinded {location : ElementKind} {params : List ParamItem}
    (h : ParamsSound c location params) : AllKinded (params.flatMap ParamItem.uses) :=
  allKinded_flatMap.2 fun p hp => (h.items p hp).kinded

theorem RepresentationItem.Sound.kinded {location : ElementKind} {item : RepresentationItem}
    (h : item.Sound c location) : AllKinded item.uses := by
  cases item with
  | inline r => exact (h.inline r rfl).params.kinded
  | ref r id => exact (h.ref r id rfl).1.kinded

theorem Request.Sound.kinded {r : Request} (h : r.Sound c) : AllKinded r.uses :=
  allKinded_append.2
    ⟨h.params.kinded, allKinded_flatMap.2 fun item hitem => (h.representations item hitem).kinded⟩

theorem Response.Sound.kinded {r : Response} (h : r.Sound c) : AllKinded r.uses :=
  allKinded_append.2
    ⟨h.params.kinded, allKinded_flatMap.2 fun item hitem => (h.representations item hitem).kinded⟩

theorem Method.Sound.kinded {m : Method} (h : m.Sound c) : AllKinded m.uses := by
  refine allKinded_append.2 ⟨allKinded_flatMap.2 fun r hr => ?_, allKinded_flatMap.2 fun r hr => ?_⟩
  · exact (h.request r (Option.mem_toList.1 hr)).kinded
  · exact (h.responses r hr).kinded

theorem MethodItem.Sound.kinded {item : MethodItem} (h : item.Sound c) : AllKinded item.uses := by
  cases item with
  | inline m => exact (h.inline m rfl).kinded
  | ref r => exact (h.ref r rfl).kinded

theorem MethodsSound.kinded {methods : List MethodItem} (h : MethodsSound c methods) :
    AllKinded (methods.flatMap MethodItem.uses) :=
  allKinded_flatMap.2 fun m hm => (h.items m hm).kinded

/-- The references of a sound resource, and of all below it, want the kinds that they name. -/
theorem Resource.Sound.kinded {inherited : List String} {r : Resource} (h : r.Sound c inherited) :
    AllKinded r.uses := by
  induction h with
  | @mk inherited r texts types params methods placeholders docs resources ih =>
    rw [r.uses_eq]
    refine allKinded_append.2
      ⟨allKinded_append.2 ⟨allKinded_append.2 ⟨fun u hu => ?_, params.kinded⟩,
      methods.kinded⟩, allKinded_flatMap.2 ih⟩
    obtain ⟨ref, href, rfl⟩ := List.mem_map.1 hu
    exact (types ref href).1

/-- The references of a sound resource type want the kinds that they name. -/
theorem ResourceType.Sound.kinded {t : ResourceType} (h : t.Sound c) : AllKinded t.uses := by
  rw [ResourceType.uses, resourceUses_eq_flatMap]
  exact allKinded_append.2 ⟨allKinded_append.2 ⟨h.params.kinded, h.methods.kinded⟩,
    allKinded_flatMap.2 fun r hr => (h.resources r hr).kinded⟩

/-- What reading ensures of each element holds the kinds of its references. -/
theorem Application.Sound.kinded {app : Application} (h : app.Sound c) : app.Kinded := by
  refine allKinded_append.2
    ⟨allKinded_append.2 ⟨allKinded_append.2 ⟨allKinded_append.2 ⟨?_, ?_⟩, ?_⟩, ?_⟩, ?_⟩
  · refine allKinded_flatMap.2 fun g hg => ?_
    rw [resourceUses_eq_flatMap]
    exact allKinded_flatMap.2 fun r hr => ((h.resources g hg).resources r hr).kinded
  · exact allKinded_flatMap.2 fun t ht => (h.resourceTypes t ht).kinded
  · exact allKinded_flatMap.2 fun item hitem => (h.representations item hitem).kinded
  · exact allKinded_flatMap.2 fun p hp => (h.params p hp).kinded
  · exact allKinded_flatMap.2 fun m hm => (h.methods m hm).1.kinded

end Sound

/-- In a description that is read each reference is of the kind that is asked for. -/
theorem readDescription_kinded {base : String} {strict : Bool} {root : Xml.Node} {app : Application}
    (h : Yields (readDescription base strict root) app) : app.Kinded :=
  (readDescription_sound_loose h).kinded

end Wadl
