import Wadl.Document.Index
import Wadl.Document.Reader
import Wadl.Document.Render
import Wadl.Document.Sourceless
import Wadl.Proofs.Document.Recast

/-!
# What does not depend on sources

The source of a reference only serves messages: a description is written the same without it
(`Render.application_sourceless`), and the checks of names and identifiers find the same.
-/

namespace Wadl

/-- What a function that may fail does not look at may be left out of each element first. -/
theorem mapM_map_of_forall {ε α β : Type} {f : α → Except ε β} {g : α → α}
    (h : ∀ x, f (g x) = f x) : ∀ xs : List α, (xs.map g).mapM f = xs.mapM f
  | [] => rfl
  | x :: xs => by
    rw [List.map_cons, List.mapM_cons, List.mapM_cons, h, mapM_map_of_forall h xs]

theorem sourcelessList_eq (rs : List Resource) :
    sourcelessList rs = rs.map Resource.sourceless := by
  induction rs with
  | nil => rfl
  | cons r rs ih => rw [sourcelessList, List.map_cons, ih]

/-! ## Writing -/

namespace Render

variable (base : String)

/-- Links are written without regard to sources; so are the parts below, one lemma for each kind. -/
theorem link_sourceless (l : Link) : link base l.sourceless = link base l := by
  rcases l with ⟨_ | r, rel, rev, docs⟩ <;> rfl

theorem param_sourceless (item : ParamItem) : param base item.sourceless = param base item := by
  cases item with
  | ref r id => rfl
  | inline p =>
    have hlinks := mapM_map_of_forall (link_sourceless base) p.links
    simp only [ParamItem.sourceless, Param.sourceless, param, hlinks]

theorem representation_sourceless (item : RepresentationItem) :
    representation base item.sourceless = representation base item := by
  cases item with
  | ref r id => rfl
  | inline r =>
    have hparams := mapM_map_of_forall (param_sourceless base) r.params
    simp only [RepresentationItem.sourceless, representation, hparams]

theorem request_sourceless (r : Request) : request base r.sourceless = request base r := by
  have hparams := mapM_map_of_forall (param_sourceless base) r.params
  have hrepresentations := mapM_map_of_forall (representation_sourceless base) r.representations
  simp only [Request.sourceless, request, hparams, hrepresentations]

theorem response_sourceless (r : Response) : response base r.sourceless = response base r := by
  have hparams := mapM_map_of_forall (param_sourceless base) r.params
  have hrepresentations := mapM_map_of_forall (representation_sourceless base) r.representations
  simp only [Response.sourceless, response, hparams, hrepresentations]

theorem methodBody_sourceless (m : Method) : methodBody base m.sourceless = methodBody base m := by
  have hrequest : (m.request.map Request.sourceless).toList.mapM (request base) =
      m.request.toList.mapM (request base) := by
    rw [Option.toList_map]
    exact mapM_map_of_forall (request_sourceless base) _
  have hresponses := mapM_map_of_forall (response_sourceless base) m.responses
  simp only [Method.sourceless, methodBody, hrequest, hresponses]

theorem method_sourceless (item : MethodItem) : method base item.sourceless = method base item := by
  cases item with
  | ref r => rfl
  | inline m => exact methodBody_sourceless base m

mutual

/-- Nor is anything of a source written with a resource, or below it. -/
theorem resource_sourceless : ∀ r : Resource, resource base r.sourceless = resource base r
  | ⟨id, path, types, queryType, params, methods, resources, docs⟩ => by
    have htypes :=
      mapM_map_of_forall (f := (·.written base)) (g := Reference.sourceless) (fun _ => rfl) types
    have hparams := mapM_map_of_forall (param_sourceless base) params
    have hmethods := mapM_map_of_forall (method_sourceless base) methods
    have hresources := resourceList_sourceless resources
    simp only [Resource.sourceless, resource, htypes, hparams, hmethods, hresources]

theorem resourceList_sourceless :
    ∀ rs : List Resource, resourceList base (sourcelessList rs) = resourceList base rs
  | [] => rfl
  | r :: rs => by
    have hr := resource_sourceless r
    have hrs := resourceList_sourceless rs
    simp only [sourcelessList, resourceList, hr, hrs]

end

theorem resourceType_sourceless (t : ResourceType) :
    resourceType base t.sourceless = resourceType base t := by
  have hparams := mapM_map_of_forall (param_sourceless base) t.params
  have hmethods := mapM_map_of_forall (method_sourceless base) t.methods
  have hresources := resourceList_sourceless base t.resources
  simp only [ResourceType.sourceless, resourceType, hparams, hmethods, hresources]

theorem group_sourceless (g : ResourceGroup) : group base g.sourceless = group base g := by
  have hresources := resourceList_sourceless base g.resources
  simp only [ResourceGroup.sourceless, group, hresources]

/-- A description is written the same without sources. -/
theorem application_sourceless (app : Application) :
    application app.sourceless = application app := by
  have htypes := mapM_map_of_forall (resourceType_sourceless app.baseUri) app.resourceTypes
  have hrepresentations :=
    mapM_map_of_forall (representation_sourceless app.baseUri) app.representations
  have hparams := mapM_map_of_forall (param_sourceless app.baseUri) app.params
  have hmethods := mapM_map_of_forall (methodBody_sourceless app.baseUri) app.methods
  have hgroups := mapM_map_of_forall (group_sourceless app.baseUri) app.resources
  simp only [Application.sourceless, application, htypes, hrepresentations,
    hparams, hmethods, hgroups]

end Render

/-- The written document does not depend on sources. -/
theorem render_sourceless (app : Application) : render app.sourceless = render app := by
  unfold render
  rw [Render.application_sourceless]

/-! ## Names and placeholders -/

theorem ParamItem.sourceless_id (item : ParamItem) : item.sourceless.id = item.id := by
  cases item <;> rfl

theorem RepresentationItem.sourceless_id (item : RepresentationItem) :
    item.sourceless.id = item.id := by
  cases item <;> rfl

/-- Names stay; so do the placeholders and identifiers below, which are all that the checks look
at. -/
theorem paramNames_sourceless (params : List ParamItem) :
    paramNames (params.map ParamItem.sourceless) = paramNames params := by
  rw [ParamItem.sourceless_eq_recast, paramNames_recast]

namespace Reader

theorem templateNames_sourceless (params : List ParamItem) :
    templateNames (params.map ParamItem.sourceless) = templateNames params := by
  rw [ParamItem.sourceless_eq_recast, templateNames_recast]

theorem methodIds_sourceless (methods : List MethodItem) :
    (methods.map MethodItem.sourceless).filterMap methodId? = methods.filterMap methodId? := by
  rw [MethodItem.sourceless_eq_recast, methodIds_recast]

/-- Which placeholder is undeclared does not depend on sources. -/
theorem undeclaredPlaceholder?_sourceless (declared : List String) (path : Option String)
    (params : List ParamItem) (methods : List MethodItem) :
    undeclaredPlaceholder? declared path (params.map ParamItem.sourceless)
      (methods.map MethodItem.sourceless) =
        undeclaredPlaceholder? declared path params methods := by
  rw [ParamItem.sourceless_eq_recast, MethodItem.sourceless_eq_recast,
    undeclaredPlaceholder?_recast]

end Reader

/-! ## Identifiers -/

/-- No identifier is reported just if none comes twice and none was seen before. -/
theorem repeatedEntry?_eq_none :
    ∀ {seen : List String} {entries : List Entry}, repeatedEntry? seen entries = none ↔
      (entries.map (·.id)).Nodup ∧ ∀ e ∈ entries, e.id ∉ seen
  | seen, [] => by simp [ repeatedEntry?]
  | seen, e :: entries => by
    unfold repeatedEntry?
    rw [List.map_cons, List.nodup_cons, List.forall_mem_cons]
    by_cases he : e.id ∈ seen
    · simp [he]
    · rw [if_neg (by simpa using he), repeatedEntry?_eq_none]
      constructor
      · rintro ⟨hrest, hseen⟩
        refine ⟨⟨fun hmem => ?_, hrest⟩, he,
          fun d hd hmem => hseen d hd (List.mem_cons_of_mem _ hmem)⟩
        obtain ⟨d, hd, hid⟩ := List.mem_map.1 hmem
        exact hseen d hd (hid ▸ List.mem_cons_self)
      · rintro ⟨⟨hmem, hrest⟩, -, hseen⟩
        refine ⟨hrest, fun d hd hmem' => ?_⟩
        rcases List.mem_cons.1 hmem' with hid | hid
        · exact hmem (hid ▸ List.mem_map_of_mem hd)
        · exact hseen d hd hid

/-- The identifiers of entries. -/
def idsOf (entries : List Entry) : List String := entries.map (·.id)

/-- Whether one is reported depends on the identifiers alone. -/
theorem repeatedEntry?_of_idsOf {entries others : List Entry} (h : idsOf entries = idsOf others) :
    repeatedEntry? [] entries = none ↔ repeatedEntry? [] others = none := by
  unfold idsOf at h
  simp [repeatedEntry?_eq_none, h]

theorem idsOf_append (xs ys : List Entry) : idsOf (xs ++ ys) = idsOf xs ++ idsOf ys :=
  List.map_append

/-- Entries at the same places have the same identifiers. -/
theorem idsOf_of_placesOf {entries others : List Entry} (h : placesOf entries = placesOf others) :
    idsOf entries = idsOf others := by
  have hfst := congrArg (List.map Prod.fst) h
  unfold placesOf at hfst
  rwa [List.map_map, List.map_map] at hfst

/-- What a description defines has the same identifiers without sources. -/
theorem Application.entries_sourceless (app : Application) :
    idsOf app.sourceless.entries = idsOf app.entries := by
  rw [app.sourceless_eq_recast]
  exact idsOf_of_placesOf (app.entries_recast .sourceless)

end Wadl
