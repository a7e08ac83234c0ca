import Mathlib.Data.List.Perm.Basic
import Wadl.Proofs.Document.Declarations

/-!
# Descriptions in another order

A description is reordered if the params inside its representations stand in another order, and so
do the representations of its top level (`Application.Reordered`). Nothing else moves: what stands
at a place that is none of the top level's representations stands there after it too
(`Application.Reordered.at?`), the same identifiers are declared (`Application.Reordered.declares`),
and the same references stand in what they name (`Definition.Reordered.references`).
-/

namespace Wadl

/-! ## Lists in another order -/

/-- Lists side by side, seen from the other side. -/
theorem forall₂_symm {α β : Type} {R : α → β → Prop} {S : β → α → Prop} {xs : List α} {ys : List β}
    (h : List.Forall₂ R xs ys) (hsymm : ∀ x y, R x y → S y x) : List.Forall₂ S ys xs :=
  (h.imp fun x y hxy => hsymm x y hxy).flip

/-- What is there on one side has its counterpart on the other. -/
theorem optionRel_some {α β : Type} {R : α → β → Prop} {x : Option α} {y : Option β}
    (h : Option.Rel R x y) {a : α} (ha : x = some a) : ∃ b, y = some b ∧ R a b := by
  cases h with
  | some h =>
    obtain rfl := Option.some.inj ha
    exact ⟨_, rfl, h⟩
  | none => cases ha

/-- The elements of two lists belong together one by one, in any order. -/
def Matched {α β : Type} (R : α → β → Prop) (xs : List α) (ys : List β) : Prop :=
  ∃ zs, List.Forall₂ R xs zs ∧ zs.Perm ys

namespace Matched

variable {α β γ : Type} {R : α → β → Prop} {xs : List α} {ys : List β}

theorem of_forall₂ (h : List.Forall₂ R xs ys) : Matched R xs ys := ⟨ys, h, .refl _⟩

/-- What is on one side has a partner on the other. -/
theorem exists_right (h : Matched R xs ys) {x : α} (hx : x ∈ xs) : ∃ y ∈ ys, R x y := by
  obtain ⟨zs, hzs, hperm⟩ := h
  obtain ⟨y, hy, hxy⟩ := exists_right_of_forall₂ hzs hx
  exact ⟨y, hperm.mem_iff.1 hy, hxy⟩

theorem symm {S : β → α → Prop} (h : Matched R xs ys) (hsymm : ∀ x y, R x y → S y x) :
    Matched S ys xs := by
  obtain ⟨zs, hzs, hperm⟩ := h
  exact List.perm_comp_forall₂ hperm.symm (forall₂_symm hzs hsymm)

/-- What is collected from elements that belong together is the same in another order, if it is for
each. -/
theorem flatMap_perm (h : Matched R xs ys) {f : α → List γ} {g : β → List γ}
    (hperm : ∀ x y, R x y → (f x).Perm (g y)) : (xs.flatMap f).Perm (ys.flatMap g) := by
  obtain ⟨zs, hzs, hys⟩ := h
  refine List.Perm.trans ?_ (hys.flatMap_right g)
  clear hys
  induction hzs with
  | nil => exact .refl _
  | cons hxz _ ih => exact (hperm _ _ hxz).append ih

/-- Lists whose elements have keys of their own belong together if each element finds one with its
key. -/
theorem of_keys {key : α → γ} {key' : β → γ} (hxs : (xs.map key).Nodup) (hys : (ys.map key').Nodup)
    (hkey : ∀ x y, R x y → key x = key' y) (hright : ∀ x ∈ xs, ∃ y ∈ ys, R x y)
    (hleft : ∀ y ∈ ys, ∃ x ∈ xs, key x = key' y) : Matched R xs ys := by
  obtain ⟨zs, hzs⟩ : ∃ zs, List.Forall₂ (fun x y => y ∈ ys ∧ R x y) xs zs := by
    clear hxs hleft
    induction xs with
    | nil => exact ⟨[], .nil⟩
    | cons x xs ih =>
      obtain ⟨hx, hrest⟩ := List.forall_mem_cons.1 hright
      obtain ⟨y, hy, hxy⟩ := hx
      obtain ⟨zs, hzs⟩ := ih hrest
      exact ⟨y :: zs, .cons ⟨hy, hxy⟩ hzs⟩
  have hkeys : zs.map key' = xs.map key := by
    rw [eq_comm, ← List.forall₂_eq_eq_eq, List.forall₂_map_left_iff, List.forall₂_map_right_iff]
    exact hzs.imp fun x y hxy => hkey x y hxy.2
  have hnodup : (zs.map key').Nodup := hkeys ▸ hxs
  refine ⟨zs, hzs.imp fun _ _ hxy => hxy.2, ?_⟩
  refine (List.perm_ext_iff_of_nodup (.of_map _ hnodup) (.of_map _ hys)).2 fun y =>
    ⟨fun hy => ?_, fun hy => ?_⟩
  · obtain ⟨x, -, hmem, -⟩ := exists_left_of_forall₂ hzs hy
    exact hmem
  · obtain ⟨x, hx, hxy⟩ := hleft y hy
    obtain ⟨z, hz, hzys, hxz⟩ := exists_right_of_forall₂ hzs hx
    rwa [List.inj_on_of_nodup_map hys hy hzys (hxy.symm.trans (hkey x z hxz))]

end Matched

/-! ## Reordered descriptions -/

/-- A representation with its params in another order. -/
structure Representation.Reordered (a b : Representation) : Prop where
  id : a.id = b.id
  mediaType : a.mediaType = b.mediaType
  element : a.element = b.element
  profile : a.profile = b.profile
  params : a.params.Perm b.params
  docs : a.docs = b.docs

/-- A representation with its params in another order, or the same reference. -/
inductive RepresentationItem.Reordered : RepresentationItem → RepresentationItem → Prop where
  | inline {a b : Representation} (h : a.Reordered b) : Reordered (.inline a) (.inline b)
  | ref (ref : Reference) (id : Option String) : Reordered (.ref ref id) (.ref ref id)

/-- A request whose representations are reordered, each in its place. -/
structure Request.Reordered (a b : Request) : Prop where
  params : a.params = b.params
  representations : List.Forall₂ RepresentationItem.Reordered a.representations b.representations
  docs : a.docs = b.docs

/-- A response whose representations are reordered, each in its place. -/
structure Response.Reordered (a b : Response) : Prop where
  status : a.status = b.status
  params : a.params = b.params
  representations : List.Forall₂ RepresentationItem.Reordered a.representations b.representations
  docs : a.docs = b.docs

/-- A method whose request and responses are reordered. -/
structure Method.Reordered (a b : Method) : Prop where
  name : a.name = b.name
  id : a.id = b.id
  request : Option.Rel Request.Reordered a.request b.request
  responses : List.Forall₂ Response.Reordered a.responses b.responses
  docs : a.docs = b.docs

/-- A reordered method, or the same reference. -/
inductive MethodItem.Reordered : MethodItem → MethodItem → Prop where
  | inline {a b : Method} (h : a.Reordered b) : Reordered (.inline a) (.inline b)
  | ref (ref : Reference) : Reordered (.ref ref) (.ref ref)

/-- A resource whose methods are reordered, and the resources below it, each in its place. -/
inductive Resource.Reordered : Resource → Resource → Prop where
  | mk {a b : Resource} (id : a.id = b.id) (path : a.path = b.path) (types : a.types = b.types)
      (queryType : a.queryType = b.queryType) (params : a.params = b.params)
      (methods : List.Forall₂ MethodItem.Reordered a.methods b.methods)
      (length : a.resources.length = b.resources.length)
      (resources : ∀ x ∈ a.resources.zip b.resources, Resource.Reordered x.1 x.2)
      (docs : a.docs = b.docs) : Reordered a b

/-- A resource type whose methods are reordered, and the resources below it. -/
structure ResourceType.Reordered (a b : ResourceType) : Prop where
  id : a.id = b.id
  queryType : a.queryType = b.queryType
  params : a.params = b.params
  methods : List.Forall₂ MethodItem.Reordered a.methods b.methods
  resources : List.Forall₂ Resource.Reordered a.resources b.resources
  docs : a.docs = b.docs

/-- Reordered resources below one base. -/
structure ResourceGroup.Reordered (a b : ResourceGroup) : Prop where
  base : a.base = b.base
  resources : List.Forall₂ Resource.Reordered a.resources b.resources

/-- A description with its representations in another order, whose params may stand in another order
too, as may those of the representations inside its methods. -/
structure Application.Reordered (a b : Application) : Prop where
  baseUri : a.baseUri = b.baseUri
  docs : a.docs = b.docs
  grammars : a.grammars = b.grammars
  resources : List.Forall₂ ResourceGroup.Reordered a.resources b.resources
  resourceTypes : List.Forall₂ ResourceType.Reordered a.resourceTypes b.resourceTypes
  representations : Matched RepresentationItem.Reordered a.representations b.representations
  params : a.params = b.params
  methods : List.Forall₂ Method.Reordered a.methods b.methods

/-- What an identifier names, in a reordered description. -/
inductive Definition.Reordered : Definition → Definition → Prop where
  | resource {a b : Resource} (h : a.Reordered b) : Reordered (.resource a) (.resource b)
  | resourceType {a b : ResourceType}
      (h : a.Reordered b) : Reordered (.resourceType a) (.resourceType b)
  | representation {a b : RepresentationItem} (h : a.Reordered b) : Reordered (.representation a)
      (.representation b)
  | param (item : ParamItem) : Reordered (.param item) (.param item)
  | method {a b : Method} (h : a.Reordered b) : Reordered (.method a) (.method b)

section Resource

variable {a b : Resource}

/-- The resources below a resource are reordered one by one. -/
theorem Resource.Reordered.resourcesBelow (h : a.Reordered b) :
    List.Forall₂ Resource.Reordered a.resources b.resources := by
  cases h with
  | mk _ _ _ _ _ _ length resources =>
    exact List.forall₂_iff_zip.2 ⟨length, fun hx => resources _ hx⟩

/-- What holds of two resources if it holds of those below them, one by one, holds of a reordered
resource. -/
theorem Resource.Reordered.byLevels {P : Resource → Resource → Prop}
    (level : ∀ a b : Resource, a.Reordered b → List.Forall₂ P a.resources b.resources → P a b)
    (h : a.Reordered b) : P a b := by
  induction h with
  | mk id path types queryType params methods length resources docs ih =>
    exact level _ _ ⟨id, path, types, queryType, params, methods, length, resources, docs⟩
      (List.forall₂_iff_zip.2 ⟨length, fun hx => ih _ hx⟩)

end Resource

/-! ## Reordering back -/

theorem Representation.Reordered.symm {a b : Representation} (h : a.Reordered b) : b.Reordered a :=
  ⟨h.id.symm, h.mediaType.symm, h.element.symm, h.profile.symm, h.params.symm, h.docs.symm⟩

theorem RepresentationItem.Reordered.symm {a b : RepresentationItem} (h : a.Reordered b) :
    b.Reordered a := by
  cases h with
  | inline h => exact .inline h.symm
  | ref ref id => exact .ref ref id

theorem Request.Reordered.symm {a b : Request} (h : a.Reordered b) : b.Reordered a :=
  ⟨h.params.symm, forall₂_symm h.representations fun _ _ => .symm, h.docs.symm⟩

theorem Response.Reordered.symm {a b : Response} (h : a.Reordered b) : b.Reordered a :=
  ⟨h.status.symm, h.params.symm, forall₂_symm h.representations fun _ _ => .symm, h.docs.symm⟩

theorem Method.Reordered.symm {a b : Method} (h : a.Reordered b) : b.Reordered a := by
  refine ⟨h.name.symm, h.id.symm, ?_, forall₂_symm h.responses fun _ _ => .symm, h.docs.symm⟩
  have hrequest := h.request
  generalize a.request = request, b.request = request' at hrequest ⊢
  cases hrequest with
  | some h => exact .some h.symm
  | none => exact .none

theorem MethodItem.Reordered.symm {a b : MethodItem} (h : a.Reordered b) : b.Reordered a := by
  cases h with
  | inline h => exact .inline h.symm
  | ref ref => exact .ref ref

/-- A reordering of resources can be undone. -/
theorem Resource.Reordered.symm {a b : Resource} (h : a.Reordered b) : b.Reordered a := by
  refine h.byLevels (P := fun a b => b.Reordered a) fun a b h below => ?_
  obtain ⟨length, resources⟩ :=
    List.forall₂_iff_zip.1 (forall₂_symm (S := Reordered) below fun _ _ h => h)
  cases h with
  | mk id path types queryType params methods _ _ docs =>
    exact ⟨id.symm, path.symm, types.symm, queryType.symm, params.symm,
      forall₂_symm methods fun _ _ => .symm, length, fun _ hx => resources hx, docs.symm⟩

theorem ResourceType.Reordered.symm {a b : ResourceType} (h : a.Reordered b) : b.Reordered a :=
  ⟨h.id.symm, h.queryType.symm, h.params.symm, forall₂_symm h.methods fun _ _ => .symm,
    forall₂_symm h.resources fun _ _ => .symm, h.docs.symm⟩

theorem ResourceGroup.Reordered.symm {a b : ResourceGroup} (h : a.Reordered b) : b.Reordered a :=
  ⟨h.base.symm, forall₂_symm h.resources fun _ _ => .symm⟩

/-- A reordering of a description can be undone. -/
theorem Application.Reordered.symm {a b : Application} (h : a.Reordered b) : b.Reordered a where
  baseUri := h.baseUri.symm
  docs := h.docs.symm
  grammars := h.grammars.symm
  resources := forall₂_symm h.resources fun _ _ => .symm
  resourceTypes := forall₂_symm h.resourceTypes fun _ _ => .symm
  representations := h.representations.symm fun _ _ => .symm
  params := h.params.symm
  methods := forall₂_symm h.methods fun _ _ => .symm

/-- A reordering of a definition can be undone. -/
theorem Definition.Reordered.symm {a b : Definition} (h : a.Reordered b) : b.Reordered a := by
  cases h with
  | resource h => exact .resource h.symm
  | resourceType h => exact .resourceType h.symm
  | representation h => exact .representation h.symm
  | param item => exact .param item
  | method h => exact .method h.symm

/-! ## References -/

/-- A reordered representation has the same references; so it is for each kind of part below. -/
theorem Representation.Reordered.references {a b : Representation} (h : a.Reordered b) :
    a.references.Perm b.references :=
  h.params.flatMap_right ParamItem.references

theorem RepresentationItem.Reordered.references {a b : RepresentationItem} (h : a.Reordered b) :
    a.references.Perm b.references := by
  cases h with
  | inline h => exact h.references
  | ref ref id => exact .refl _

/-- Reordered bodies have the same references. -/
theorem bodies_references {items items' : List RepresentationItem}
    (h : List.Forall₂ RepresentationItem.Reordered items items') :
    (items.flatMap RepresentationItem.references).Perm
      (items'.flatMap RepresentationItem.references) :=
  (Matched.of_forall₂ h).flatMap_perm fun _ _ hitem => hitem.references

theorem Request.Reordered.references {a b : Request} (h : a.Reordered b) :
    a.references.Perm b.references := by
  rw [Request.references, Request.references, h.params]
  exact (bodies_references h.representations).append_left _

theorem Response.Reordered.references {a b : Response} (h : a.Reordered b) :
    a.references.Perm b.references := by
  rw [Response.references, Response.references, h.params]
  exact (bodies_references h.representations).append_left _

theorem Method.Reordered.references {a b : Method} (h : a.Reordered b) :
    a.references.Perm b.references := by
  have hrequest : (a.request.toList.flatMap Request.references).Perm
      (b.request.toList.flatMap Request.references) := by
    have hrel := h.request
    generalize a.request = request, b.request = request' at hrel ⊢
    cases hrel with
    | some h => exact h.references.append_right []
    | none => exact .refl _
  exact hrequest.append ((Matched.of_forall₂ h.responses).flatMap_perm fun _ _ hr => hr.references)

theorem MethodItem.Reordered.references {a b : MethodItem} (h : a.Reordered b) :
    a.references.Perm b.references := by
  cases h with
  | inline h => exact h.references
  | ref ref => exact .refl _

/-- Reordered methods have the same references. -/
theorem methods_references {methods methods' : List MethodItem}
    (h : List.Forall₂ MethodItem.Reordered methods methods') :
    (methods.flatMap MethodItem.references).Perm (methods'.flatMap MethodItem.references) :=
  (Matched.of_forall₂ h).flatMap_perm fun _ _ hmethod => hmethod.references

/-- The references of a resource are its types and those of all that it holds. -/
theorem Resource.references_eq (r : Resource) : r.references =
    r.types ++ r.params.flatMap ParamItem.references ++ r.methods.flatMap MethodItem.references ++
      resourceReferences r.resources := by
  cases r
  rw [Resource.references]

/-- Resources have the same references together if each has. -/
theorem resourceReferences_perm {rs rs' : List Resource}
    (h : List.Forall₂ (fun a b : Resource => a.references.Perm b.references) rs rs') :
    (resourceReferences rs).Perm (resourceReferences rs') := by
  induction h with
  | nil => exact .refl _
  | cons hfirst _ ih =>
    rw [resourceReferences, resourceReferences]
    exact hfirst.append ih

/-- A reordered resource, with all below it, has the same references. -/
theorem Resource.Reordered.references {a b : Resource} (h : a.Reordered b) :
    a.references.Perm b.references := by
  refine h.byLevels (P := fun a b => a.references.Perm b.references) fun a b h below => ?_
  cases h with
  | mk _ _ types _ params methods =>
    rw [Resource.references_eq, Resource.references_eq, types, params]
    exact ((methods_references methods).append_left _).append (resourceReferences_perm below)

theorem resourceReferences_reordered {rs rs' : List Resource}
    (h : List.Forall₂ Resource.Reordered rs rs') :
    (resourceReferences rs).Perm (resourceReferences rs') :=
  resourceReferences_perm (h.imp fun _ _ hr => hr.references)

theorem ResourceType.Reordered.references {a b : ResourceType} (h : a.Reordered b) :
    a.references.Perm b.references := by
  rw [ResourceType.references, ResourceType.references, h.params]
  exact ((methods_references h.methods).append_left _).append
    (resourceReferences_reordered h.resources)

/-- The same references stand in a reordered description. -/
theorem Application.Reordered.references {a b : Application} (h : a.Reordered b) :
    a.references.Perm b.references := by
  have hresources : (a.resources.flatMap fun g => resourceReferences g.resources).Perm
      (b.resources.flatMap fun g => resourceReferences g.resources) :=
    (Matched.of_forall₂ h.resources).flatMap_perm fun _ _ hg =>
      resourceReferences_reordered hg.resources
  have htypes : (a.resourceTypes.flatMap ResourceType.references).Perm
      (b.resourceTypes.flatMap ResourceType.references) :=
    (Matched.of_forall₂ h.resourceTypes).flatMap_perm fun _ _ ht => ht.references
  have hrepresentations : (a.representations.flatMap RepresentationItem.references).Perm
      (b.representations.flatMap RepresentationItem.references) :=
    h.representations.flatMap_perm fun _ _ hitem => hitem.references
  have hmethods :
      (a.methods.flatMap Method.references).Perm (b.methods.flatMap Method.references) :=
    (Matched.of_forall₂ h.methods).flatMap_perm fun _ _ hm => hm.references
  rw [Application.references, Application.references, h.params]
  exact (((hresources.append htypes).append hrepresentations).append_right _).append hmethods

/-- The same references stand in what an identifier names in a reordered description. -/
theorem Definition.Reordered.references {a b : Definition} (h : a.Reordered b) :
    a.references.Perm b.references := by
  cases h with
  | resource h => exact h.references
  | resourceType h => exact h.references
  | representation h => exact h.references
  | param item => exact .refl _
  | method h => exact h.references

/-! ## Parts and declarations -/

/-- What stands at a place of a description, in a reordered one. -/
inductive Part.Reordered : Part → Part → Prop where
  | application {a b : Application}
      (h : a.Reordered b) : Reordered (.application a) (.application b)
  | group {a b : ResourceGroup} (h : a.Reordered b) : Reordered (.group a) (.group b)
  | resource {a b : Resource} (h : a.Reordered b) : Reordered (.resource a) (.resource b)
  | resourceType {a b : ResourceType}
      (h : a.Reordered b) : Reordered (.resourceType a) (.resourceType b)
  | representation {a b : RepresentationItem} (h : a.Reordered b) : Reordered (.representation a)
      (.representation b)
  | param (item : ParamItem) : Reordered (.param item) (.param item)
  | method {a b : MethodItem} (h : a.Reordered b) : Reordered (.method a) (.method b)
  | request {a b : Request} (h : a.Reordered b) : Reordered (.request a) (.request b)
  | response {a b : Response} (h : a.Reordered b) : Reordered (.response a) (.response b)

/-- In lists side by side, elements at one index belong together. -/
theorem getElem?_of_forall₂ {α β : Type} {R : α → β → Prop} {xs : List α}
    {ys : List β} {n : Nat} {x : α} (h : List.Forall₂ R xs ys) (hx : xs[n]? = some x) :
    ∃ y, ys[n]? = some y ∧ R x y := by
  induction h generalizing n with
  | nil => simp at hx
  | @cons x' y xs ys hfirst _ ih =>
    cases n with
    | zero =>
      obtain rfl := Option.some.inj hx
      exact ⟨y, rfl, hfirst⟩
    | succ n => exact ih hx

/-- A child in a list has its counterpart at the same place. -/
theorem exists_reordered_child {α : Type} {R : α → α → Prop} {toPart : α → Part} {xs ys : List α}
    {n : Nat} {x : α} (h : List.Forall₂ R xs ys) (hx : xs[n]? = some x)
    (hpart : ∀ x y, R x y → (toPart x).Reordered (toPart y)) :
    ∃ q, ys[n]?.map toPart = some q ∧ (toPart x).Reordered q := by
  obtain ⟨y, hy, hxy⟩ := getElem?_of_forall₂ h hx
  exact ⟨toPart y, by rw [hy, Option.map_some], hpart x y hxy⟩

/-- A child of a part has its counterpart, unless it is a representation: those of the top level
move. -/
theorem Part.Reordered.child? {p p' q : Part} {s : Step} (h : p.Reordered p')
    (hq : p.child? s = some q) (hmoves : ∀ item, q ≠ .representation item) :
    ∃ q', p'.child? s = some q' ∧ q.Reordered q' := by
  unfold Part.child? at hq
  split at hq <;> try obtain ⟨x, hx, rfl⟩ := Option.map_eq_some_iff.1 hq
  case h_1 =>
    cases h with
    | application h => exact exists_reordered_child h.resources hx fun _ _ => .group
  case h_2 =>
    cases h with
    | application h => exact exists_reordered_child h.resourceTypes hx fun _ _ => .resourceType
  case h_3 => exact absurd rfl (hmoves x)
  case h_4 =>
    cases h with
    | application h =>
      rw [h.params] at hx
      exact ⟨.param x, by rw [Part.child?, hx]; rfl, .param x⟩
  case h_5 =>
    cases h with
    | application h => exact exists_reordered_child h.methods hx fun _ _ hm => .method (.inline hm)
  case h_6 =>
    cases h with
    | group h => exact exists_reordered_child h.resources hx fun _ _ => .resource
  case h_7 =>
    cases h with
    | resource h => exact exists_reordered_child h.resourcesBelow hx fun _ _ => .resource
  case h_8 =>
    cases h with
    | resource h =>
      cases h with
      | mk _ _ _ _ _ methods => exact exists_reordered_child methods hx fun _ _ => .method
  case h_9 =>
    cases h with
    | resourceType h => exact exists_reordered_child h.resources hx fun _ _ => .resource
  case h_10 =>
    cases h with
    | resourceType h => exact exists_reordered_child h.methods hx fun _ _ => .method
  case h_11 =>
    cases h with
    | method h =>
      cases h with
      | inline h =>
        obtain ⟨request, hrequest, hreordered⟩ := optionRel_some h.request hx
        exact ⟨.request request, by rw [Part.child?, hrequest]; rfl, .request hreordered⟩
  case h_12 =>
    cases h with
    | method h =>
      cases h with
      | inline h => exact exists_reordered_child h.responses hx fun _ _ => .response
  case h_13 => exact absurd rfl (hmoves x)
  case h_14 => exact absurd rfl (hmoves x)
  case h_15 => cases hq

/-- A part that stands at a place has its counterpart there, unless it is a representation. -/
theorem Application.Reordered.at? {a b : Application} (h : a.Reordered b) {steps : List Step} :
    ∀ {p : Part}, (Part.application a).at? steps = some p → (∀ item, p ≠ .representation item) →
      ∃ p', (Part.application b).at? steps = some p' ∧ p.Reordered p' := by
  induction steps using List.reverseRecOn with
  | nil =>
    rintro p ⟨⟩ -
    exact ⟨.application b, rfl, .application h⟩
  | append_singleton steps s ih =>
    intro p hp hmoves
    rw [Part.at?_append_singleton] at hp
    obtain ⟨q, hq, hchild⟩ := Option.bind_eq_some_iff.1 hp
    have hholds : ∀ item, q ≠ .representation item := by
      rintro item rfl
      cases hchild
    obtain ⟨q', hq', hqq⟩ := ih hq hholds
    obtain ⟨p', hp', hpp⟩ := hqq.child? hchild hmoves
    exact ⟨p', Part.at?_child hq' hp', hpp⟩

/-- What an identifier names, from one place to another: only a representation of the top level
moves. -/
structure Definition.Moved (d : Definition) (steps : List Step) (d' : Definition)
    (steps' : List Step) : Prop where
  definition : d.Reordered d'
  steps : steps = steps' ∨ ∃ item n n', d = .representation item ∧ steps = [.representation n] ∧
    steps' = [.representation n']

/-- What an identifier names is named by it in a reordered description. -/
theorem Application.Reordered.declares {a b : Application} (h : a.Reordered b)
    {id : String} {d : Definition} {steps : List Step} (hd : a.Declares id d steps) :
    ∃ d' steps', b.Declares id d' steps' ∧ d.Moved steps d' steps' := by
  cases hd with
  | resourceType stands =>
    obtain ⟨t', stands', ht⟩ := getElem?_of_forall₂ h.resourceTypes stands
    exact ⟨_, _, ht.id ▸ .resourceType stands', .resourceType ht, .inl rfl⟩
  | @representation n item stands =>
    obtain ⟨item', hmem, hitem⟩ := h.representations.exists_right (List.mem_of_getElem? stands)
    obtain ⟨n', stands'⟩ := List.getElem?_of_mem hmem
    have hid : item.id = item'.id := by
      cases hitem with
      | inline h => exact h.id
      | ref ref id => rfl
    exact ⟨_, _, hid ▸ .representation stands', .representation hitem,
      .inr ⟨item, n, n', rfl, rfl, rfl⟩⟩
  | @param n item stands =>
    rw [h.params] at stands
    exact ⟨_, _, .param stands, .param item, .inl rfl⟩
  | method stands =>
    obtain ⟨m', stands', hm⟩ := getElem?_of_forall₂ h.methods stands
    exact ⟨_, _, hm.id ▸ .method stands', .method hm, .inl rfl⟩
  | below declares =>
    cases declares with
    | resource stands hasId filled =>
      obtain ⟨p', stands', hp⟩ := h.at? stands fun item hitem => by cases hitem
      cases hp with
      | resource hr =>
        have hid := hr
        cases hid with
        | mk id =>
          exact ⟨_, _, .below (.resource stands' (id ▸ hasId) filled), .resource hr, .inl rfl⟩
    | @body steps p n rep id stands within hasId filled =>
      obtain ⟨p', stands', hp⟩ := h.at? stands fun item hitem => by
        rw [hitem] at within
        cases within
      have hbodies : List.Forall₂ RepresentationItem.Reordered p.bodies p'.bodies := by
        cases hp with
        | request h => exact h.representations
        | response h => exact h.representations
        | _ => exact .nil
      obtain ⟨item', within', hitem⟩ := getElem?_of_forall₂ hbodies within
      cases hitem with
      | inline hrep =>
        exact ⟨_, _, .below (.body stands' within' (hrep.id ▸ hasId) filled),
          .representation (.inline hrep), .inl rfl⟩

/-- The index of a description has what an identifier names. -/
theorem Index.declares_iff {app : Application} {index : Index}
    (h : Index.ofApplication app = .ok index) {id : String} {d : Definition} {steps : List Step} :
    app.Declares id d steps ↔ ∃ entry, index.get? id = some entry ∧ entry.definition = d ∧
      entry.steps = steps := by
  have hunique : repeatedEntry? [] app.entries = none := by
    unfold ofApplication at h
    split at h
    · assumption
    · cases h
  obtain ⟨index', h', -, hexact⟩ := index_exact hunique
  obtain rfl := Except.ok.inj (h.symm.trans h')
  exact hexact id d steps

end Wadl
