import Wadl.Document.Index
import Wadl.Document.Reader
import Wadl.Document.Sourceless
import Wadl.Proofs.Document.Sound

/-!
# Descriptions with other references and other documentation

`Application.recast` puts other references and other documentation in the places of those of a
description. Nothing that is checked looks at either: the names of the params, the identifiers of
the methods and the undeclared placeholders stay the same, and so do the identifiers of the document
and where they stand (`Application.entries_recast`). A description without sources is a case of it
(`Application.sourceless_eq_recast`).
-/

namespace Wadl

/-- What to put in the place of references and of documentation. -/
structure Recast where
  reference : Reference → Reference
  doc : Doc → Doc

/-- Sources are left out, and nothing else. -/
def Recast.sourceless : Recast := ⟨Reference.sourceless, id⟩

@[simp] theorem Recast.sourceless_reference : Recast.sourceless.reference = Reference.sourceless :=
  rfl

@[simp] theorem Recast.sourceless_doc : Recast.sourceless.doc = id := rfl

variable (f : Recast)

/-! ## The parts of a description -/

/-- A value with other documentation. -/
def ParamOption.recast (o : ParamOption) : ParamOption := { o with docs := o.docs.map f.doc }

/-- A link with another reference and other documentation. -/
def Link.recast (l : Link) : Link :=
  { l with resourceType := l.resourceType.map f.reference, docs := l.docs.map f.doc }

/-- A param with other references and other documentation. -/
def Param.recast (p : Param) : Param :=
  { p with
    options := p.options.map (·.recast f)
    links := p.links.map (·.recast f)
    docs := p.docs.map f.doc }

/-- A param or a reference, recast. -/
def ParamItem.recast : ParamItem → ParamItem
  | .inline p => .inline (p.recast f)
  | .ref r id => .ref (f.reference r) id

/-- A representation with other references and other documentation. -/
def Representation.recast (r : Representation) : Representation :=
  { r with params := r.params.map (·.recast f), docs := r.docs.map f.doc }

/-- A representation or a reference, recast. -/
def RepresentationItem.recast : RepresentationItem → RepresentationItem
  | .inline r => .inline (r.recast f)
  | .ref r id => .ref (f.reference r) id

/-- A request with other references and other documentation. -/
def Request.recast (r : Request) : Request where
  params := r.params.map (·.recast f)
  representations := r.representations.map (·.recast f)
  docs := r.docs.map f.doc

/-- A response with other references and other documentation. -/
def Response.recast (r : Response) : Response :=
  { r with
    params := r.params.map (·.recast f)
    representations := r.representations.map (·.recast f)
    docs := r.docs.map f.doc }

/-- A method with other references and other documentation. -/
def Method.recast (m : Method) : Method :=
  { m with
    request := m.request.map (·.recast f)
    responses := m.responses.map (·.recast f)
    docs := m.docs.map f.doc }

/-- A method or a reference, recast. -/
def MethodItem.recast : MethodItem → MethodItem
  | .inline m => .inline (m.recast f)
  | .ref r => .ref (f.reference r)

mutual

/-- A resource with other references and other documentation. -/
def Resource.recast : Resource → Resource
  | ⟨id, path, types, queryType, params, methods, resources, docs⟩ =>
    ⟨id, path, types.map f.reference, queryType, params.map (·.recast f), methods.map (·.recast f),
      recastList resources, docs.map f.doc⟩

/-- Resources with other references and other documentation. -/
def recastList : List Resource → List Resource
  | [] => []
  | r :: rs => r.recast :: recastList rs

end

/-- A resource type with other references and other documentation. -/
def ResourceType.recast (t : ResourceType) : ResourceType :=
  { t with
    params := t.params.map (·.recast f)
    methods := t.methods.map (·.recast f)
    resources := recastList f t.resources
    docs := t.docs.map f.doc }

/-- A group of resources with other references and other documentation. -/
def ResourceGroup.recast (g : ResourceGroup) : ResourceGroup :=
  { g with resources := recastList f g.resources }

/-- A description with other references and other documentation. -/
def Application.recast (app : Application) : Application :=
  { app with
    docs := app.docs.map f.doc
    resources := app.resources.map (·.recast f)
    resourceTypes := app.resourceTypes.map (·.recast f)
    representations := app.representations.map (·.recast f)
    params := app.params.map (·.recast f)
    methods := app.methods.map (·.recast f) }

/-- Resources are recast one by one. -/
theorem recastList_eq : ∀ rs : List Resource, recastList f rs = rs.map (·.recast f)
  | [] => rfl
  | r :: rs => by rw [recastList, List.map_cons, recastList_eq rs]

/-! ## Names and placeholders -/

theorem filterMap_map_of_forall {α β : Type} {f : α → Option β} {g : α → α} (h : ∀ x, f (g x) = f x)
    (xs : List α) : (xs.map g).filterMap f = xs.filterMap f := by
  rw [List.filterMap_map]
  exact List.filterMap_congr fun x _ => h x

/-- Identifiers stay; so do names, placeholders and places below, since they stand outside of what
is recast. -/
theorem ParamItem.recast_id (item : ParamItem) : (item.recast f).id = item.id := by
  cases item <;> rfl

theorem RepresentationItem.recast_id (item : RepresentationItem) :
    (item.recast f).id = item.id := by
  cases item <;> rfl

theorem paramNames_recast (params : List ParamItem) :
    paramNames (params.map (·.recast f)) = paramNames params := by
  unfold paramNames
  rw [List.map_filterMap, List.map_filterMap]
  refine filterMap_map_of_forall (fun item => ?_) params
  cases item <;> rfl

namespace Reader

/-- The placeholders that params declare stay. -/
theorem templateNames_recast (params : List ParamItem) :
    templateNames (params.map (·.recast f)) = templateNames params := by
  refine filterMap_map_of_forall (fun item => ?_) params
  cases item <;> rfl

theorem hasReferences_recast (params : List ParamItem) :
    hasReferences (params.map (·.recast f)) = hasReferences params := by
  unfold hasReferences
  rw [List.any_map]
  congr 1
  funext item
  cases item <;> rfl

/-- The identifiers of methods stay. -/
theorem methodIds_recast (methods : List MethodItem) :
    (methods.map (·.recast f)).filterMap methodId? = methods.filterMap methodId? := by
  refine filterMap_map_of_forall (fun item => ?_) methods
  cases item <;> rfl

/-- The params of the requests of methods that are recast. -/
theorem requestParams_recast (methods : List MethodItem) :
    (methods.map (·.recast f)).mapM requestParams =
      (methods.mapM requestParams).map (·.map (·.map (·.recast f))) := by
  induction methods with
  | nil => rfl
  | cons item methods ih =>
    have hitem : requestParams (item.recast f) = (requestParams item).map (·.map (·.recast f)) := by
      cases item with
      | ref r => rfl
      | inline m => rcases m with ⟨name, id, _ | request, responses, docs⟩ <;> rfl
    rw [List.map_cons, List.mapM_cons, List.mapM_cons, ih, hitem]
    cases requestParams item with
    | none => rfl
    | some params => cases methods.mapM requestParams <;> rfl

/-- Which placeholder is undeclared depends on neither references nor documentation. -/
theorem undeclaredPlaceholder?_recast (declared : List String) (path : Option String)
    (params : List ParamItem) (methods : List MethodItem) :
    undeclaredPlaceholder? declared path (params.map (·.recast f)) (methods.map (·.recast f)) =
      undeclaredPlaceholder? declared path params methods := by
  unfold undeclaredPlaceholder?
  rw [requestParams_recast]
  cases methods.mapM requestParams with
  | none => rfl
  | some requests =>
    have hany : ((params :: requests).map (·.map (·.recast f))).any hasReferences =
        (params :: requests).any hasReferences := by
      rw [List.any_map]
      congr 1
      funext ps
      exact hasReferences_recast f ps
    have hnames : (requests.map (·.map (·.recast f))).flatMap templateNames =
        requests.flatMap templateNames := by
      rw [List.flatMap_map]
      congr 1
      funext ps
      exact templateNames_recast f ps
    rw [List.map_cons] at hany
    simp only [Option.map_some, hany, hnames]

end Reader

/-! ## Identifiers -/

/-- The identifiers of entries, and where they stand. -/
def placesOf (entries : List Entry) : List (String × List String) :=
  entries.map fun e => (e.id, e.path)

theorem placesOf_append (xs ys : List Entry) : placesOf (xs ++ ys) = placesOf xs ++ placesOf ys :=
  List.map_append

/-- The first entry whose identifier stands earlier has the same place if all entries have. -/
theorem repeatedEntry?_of_placesOf : ∀ {entries others : List Entry} (seen : List String),
    placesOf entries = placesOf others →
      ( repeatedEntry? seen entries).map (fun e => (e.id, e.path)) =
        ( repeatedEntry? seen others).map fun e => (e.id, e.path)
  | [], [], _, _ => rfl
  | [], _ :: _, _, h | _ :: _, [], _, h => by cases h
  | e :: entries, o :: others, seen, h => by
    obtain ⟨hfirst, hrest⟩ := List.cons.inj h
    have hid : e.id = o.id := congrArg Prod.fst hfirst
    unfold repeatedEntry?
    rw [hid]
    split
    · exact congrArg some hfirst
    · exact repeatedEntry?_of_placesOf _ hrest

/-- Entries that are made of the parts of a list have the same places as those made of changed
parts, if those of each part do. -/
theorem placesOf_flatMap_zipIdx {α : Type} {f : α × Nat → List Entry} {g : α → α}
    (h : ∀ x n, placesOf (f (g x, n)) = placesOf (f (x, n))) (xs : List α) :
    placesOf ((xs.map g).zipIdx.flatMap f) = placesOf (xs.zipIdx.flatMap f) := by
  unfold placesOf at h ⊢
  rw [List.zipIdx_map, List.flatMap_map, List.map_flatMap, List.map_flatMap]
  congr 1
  funext ⟨x, n⟩
  exact h x n

/-- Entries by position keep their places if each of them does. -/
theorem placesOf_map_zipIdx {α : Type} {f : α × Nat → Entry} {g : α → α}
    (h : ∀ x n, placesOf [f (g x, n)] = placesOf [f (x, n)]) (xs : List α) :
    placesOf ((xs.map g).zipIdx.map f) = placesOf (xs.zipIdx.map f) := by
  simpa only [← List.map_eq_flatMap] using placesOf_flatMap_zipIdx (f := fun x => [f x]) h xs

/-- The representations of a body keep their places. -/
theorem bodyEntries_recast (items : List RepresentationItem) (path : List String)
    (steps : List Step) :
    placesOf (bodyEntries (items.map (·.recast f)) path steps) =
      placesOf (bodyEntries items path steps) := by
  unfold bodyEntries placesOf
  rw [List.zipIdx_map, List.filterMap_map, List.map_filterMap, List.map_filterMap]
  congr 1
  funext ⟨item, n⟩
  cases item with
  | ref r id => rfl
  | inline r =>
    rcases r with ⟨_ | id, mediaType, element, profile, params, docs⟩
    · rfl
    · simp only [RepresentationItem.recast, Representation.recast,
        Function.comp_apply, Prod.map_apply]
      by_cases hid : id.isEmpty = true
      · rw [if_pos hid, if_pos hid]
      · rw [if_neg hid, if_neg hid]
        rfl

/-- The definitions in a method keep their places. -/
theorem Method.entries_recast (m : Method) (path : List String) (steps : List Step) :
    placesOf ((m.recast f).entries path steps) = placesOf (m.entries path steps) := by
  have hresponses := placesOf_flatMap_zipIdx (g := (·.recast f))
    (f := fun x =>
      bodyEntries x.1.representations (path ++ ["response"]) (steps ++ [.response x.2]))
    (fun r n => bodyEntries_recast f r.representations _ _) m.responses
  rcases m with ⟨name, id, _ | request, responses, docs⟩
  · exact hresponses
  · have hrequest := bodyEntries_recast f request.representations (path ++ ["request"])
      (steps ++ [.request])
    unfold entries
    rw [placesOf_append, placesOf_append]
    exact congrArg₂ _ hrequest hresponses

theorem methodEntries_recast (methods : List MethodItem) (path : List String) (steps : List Step) :
    placesOf (methodEntries (methods.map (·.recast f)) path steps) =
      placesOf (methodEntries methods path steps) := by
  refine placesOf_flatMap_zipIdx (fun item n => ?_) methods
  cases item with
  | ref r => rfl
  | inline m => exact Method.entries_recast f m _ _

mutual

/-- The definitions in a resource, and below it, keep their places. -/
theorem Resource.entries_recast (path : List String) (steps : List Step) :
    ∀ r : Resource, placesOf ((r.recast f).entries path steps) = placesOf (r.entries path steps)
  | ⟨id, uriPath, types, queryType, params, methods, resources, docs⟩ => by
    have hmethods := methodEntries_recast f methods
      (path ++ [labelled "resource" (firstNonEmpty [id, uriPath])]) steps
    have hresources := resourceEntries_recast
      (path ++ [labelled "resource" (firstNonEmpty [id, uriPath])]) steps 0 resources
    simp only [Resource.recast, Resource.entries, placesOf_append, hmethods, hresources]
    congr 2
    cases id with
    | none => rfl
    | some i => by_cases hi : i.isEmpty = true <;> simp [placesOf, hi]

theorem resourceEntries_recast (path : List String) (steps : List Step) (n : Nat) :
    ∀ rs : List Resource, placesOf (resourceEntries path steps n (recastList f rs)) =
      placesOf (resourceEntries path steps n rs)
  | [] => rfl
  | r :: rs => by
    rw [recastList, resourceEntries, resourceEntries, placesOf_append, placesOf_append,
      Resource.entries_recast path _ r, resourceEntries_recast path steps (n + 1) rs]

end

/-- The definitions in a resource type keep their places. -/
theorem ResourceType.entries_recast (t : ResourceType) (path : List String) (steps : List Step) :
    placesOf ((t.recast f).entries path steps) = placesOf (t.entries path steps) := by
  have hmethods := methodEntries_recast f t.methods (path ++ [labelled "resource_type" t.id]) steps
  have hresources :=
    resourceEntries_recast f (path ++ [labelled "resource_type" t.id]) steps 0 t.resources
  show (t.id, _) :: placesOf (_ ++ _) = (t.id, _) :: placesOf (_ ++ _)
  rw [placesOf_append, placesOf_append]
  exact congrArg _ (congrArg₂ _ hmethods hresources)

/-- What a description defines has the same identifiers at the same places if it is recast. -/
theorem Application.entries_recast (app : Application) :
    placesOf (app.recast f).entries = placesOf app.entries := by
  unfold entries recast
  simp only [placesOf_append]
  congr 1
  · congr 1
    · congr 1
      · congr 1
        · exact placesOf_flatMap_zipIdx (fun t n => t.entries_recast f _ _) app.resourceTypes
        · refine placesOf_map_zipIdx (fun item n => ?_) app.representations
          simp only [RepresentationItem.recast_id]
          rfl
      · refine placesOf_map_zipIdx (fun item n => ?_) app.params
        simp only [ParamItem.recast_id]
        rfl
    · refine placesOf_flatMap_zipIdx (fun m n => ?_) app.methods
      exact congrArg (_ :: ·) (m.entries_recast f _ _)
  · refine placesOf_flatMap_zipIdx (fun g n => ?_) app.resources
    exact resourceEntries_recast f _ _ 0 g.resources

/-! ## Sources -/

theorem ParamOption.recast_sourceless (o : ParamOption) : o.recast .sourceless = o := by
  simp [ParamOption.recast]

/-- Leaving sources out is recasting; so it is for each kind of part below. -/
theorem Link.sourceless_eq_recast (l : Link) : l.sourceless = l.recast .sourceless := by
  simp [Link.sourceless, Link.recast]

theorem Param.sourceless_eq_recast (p : Param) : p.sourceless = p.recast .sourceless := by
  simp [Param.sourceless, Param.recast, ParamOption.recast_sourceless, Link.sourceless_eq_recast]

theorem ParamItem.sourceless_eq_recast : ParamItem.sourceless = (·.recast .sourceless) := by
  funext item
  cases item with
  | ref r id => rfl
  | inline p => rw [ParamItem.sourceless, ParamItem.recast, p.sourceless_eq_recast]

theorem RepresentationItem.sourceless_eq_recast :
    RepresentationItem.sourceless = (·.recast .sourceless) := by
  funext item
  cases item with
  | ref r id => rfl
  | inline r =>
    simp [RepresentationItem.sourceless, RepresentationItem.recast, Representation.recast,
      ParamItem.sourceless_eq_recast]

theorem Request.sourceless_eq_recast : Request.sourceless = (·.recast .sourceless) := by
  funext r
  simp [Request.sourceless, Request.recast, ParamItem.sourceless_eq_recast,
    RepresentationItem.sourceless_eq_recast]

theorem Response.sourceless_eq_recast : Response.sourceless = (·.recast .sourceless) := by
  funext r
  simp [Response.sourceless, Response.recast, ParamItem.sourceless_eq_recast,
    RepresentationItem.sourceless_eq_recast]

theorem Method.sourceless_eq_recast : Method.sourceless = (·.recast .sourceless) := by
  funext m
  simp [Method.sourceless, Method.recast, Request.sourceless_eq_recast,
    Response.sourceless_eq_recast]

theorem MethodItem.sourceless_eq_recast : MethodItem.sourceless = (·.recast .sourceless) := by
  funext item
  cases item with
  | ref r => rfl
  | inline m => rw [MethodItem.sourceless, MethodItem.recast, Method.sourceless_eq_recast]

mutual

/-- Leaving sources out of a resource, and of all below it, is recasting it. -/
theorem Resource.sourceless_eq_recast : ∀ r : Resource, r.sourceless = r.recast .sourceless
  | ⟨id, path, types, queryType, params, methods, resources, docs⟩ => by
    rw [Resource.sourceless, Resource.recast, sourcelessList_eq_recast resources,
      ParamItem.sourceless_eq_recast, MethodItem.sourceless_eq_recast]
    simp

theorem sourcelessList_eq_recast :
    ∀ rs : List Resource, sourcelessList rs = recastList .sourceless rs
  | [] => rfl
  | r :: rs => by
      rw [sourcelessList, recastList, r.sourceless_eq_recast, sourcelessList_eq_recast rs]

end

theorem ResourceType.sourceless_eq_recast : ResourceType.sourceless = (·.recast .sourceless) := by
  funext t
  simp [ResourceType.sourceless, ResourceType.recast, ParamItem.sourceless_eq_recast,
    MethodItem.sourceless_eq_recast, sourcelessList_eq_recast]

theorem ResourceGroup.sourceless_eq_recast : ResourceGroup.sourceless = (·.recast .sourceless) := by
  funext g
  simp [ResourceGroup.sourceless, ResourceGroup.recast, sourcelessList_eq_recast]

/-- A description without sources has other references and the same documentation. -/
theorem Application.sourceless_eq_recast (app : Application) :
    app.sourceless = app.recast .sourceless := by
  simp [Application.sourceless, Application.recast, ResourceGroup.sourceless_eq_recast,
    ResourceType.sourceless_eq_recast, RepresentationItem.sourceless_eq_recast,
    ParamItem.sourceless_eq_recast, Method.sourceless_eq_recast]

end Wadl
