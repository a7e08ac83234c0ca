import Wadl.Document.References

/-!
# The references below an identifier

What an identifier names is a part of its document, and so are the references that stand in it:
`Application.entry_references` says that they are among those of the document, in the same order.
-/

namespace Wadl

theorem sublist_flatMap {α β : Type} {f : α → List β} {x : α} {xs : List α} (h : x ∈ xs) :
    (f x).Sublist (xs.flatMap f) := by
  rw [List.flatMap_def]
  exact List.sublist_flatten_of_mem (List.mem_map_of_mem h)

/-- An identified representation is one of the items. -/
theorem mem_bodyEntries {items : List RepresentationItem} {path : List String} {steps : List Step}
    {e : Entry} (h : e ∈ bodyEntries items path steps) :
    ∃ rep n, (.inline rep, n) ∈ items.zipIdx ∧ e.definition = .representation (.inline rep) ∧
      e.steps = steps ++ [.representation n] := by
  obtain ⟨⟨item, n⟩, hmem, h⟩ := List.mem_filterMap.1 h
  cases item with
  | ref ref id => cases h
  | inline rep =>
    simp only at h
    split at h
    · split at h
      · cases h
      · obtain rfl := Option.some.inj h
        exact ⟨rep, n, hmem, rfl, rfl⟩
    · cases h

theorem bodyEntries_references {items : List RepresentationItem} {path : List String}
    {steps : List Step} {e : Entry} (h : e ∈ bodyEntries items path steps) :
    e.definition.references.Sublist (items.flatMap RepresentationItem.references) := by
  obtain ⟨rep, n, hmem, hdef, -⟩ := mem_bodyEntries h
  rw [hdef]
  exact sublist_flatMap (f := RepresentationItem.references) (List.fst_mem_of_mem_zipIdx hmem)

theorem Method.entry_references {m : Method} {path : List String} {steps : List Step} {e : Entry}
    (h : e ∈ m.entries path steps) : e.definition.references.Sublist m.references := by
  unfold Method.entries at h
  unfold Method.references
  rcases List.mem_append.1 h with h | h
  · refine List.Sublist.trans ?_ (List.sublist_append_left _ _)
    cases hreq : m.request with
    | none => simp [hreq] at h
    | some request =>
      rw [hreq] at h
      refine (bodyEntries_references h).trans ?_
      simp [Request.references]
  · refine List.Sublist.trans ?_ (List.sublist_append_right _ _)
    obtain ⟨⟨response, n⟩, hmem, h⟩ := List.mem_flatMap.1 h
    refine (bodyEntries_references h).trans (List.Sublist.trans ?_
      (sublist_flatMap (List.fst_mem_of_mem_zipIdx hmem)))
    exact List.sublist_append_right _ _

theorem methodEntries_references {methods : List MethodItem} {path : List String}
    {steps : List Step} {e : Entry} (h : e ∈ methodEntries methods path steps) :
    e.definition.references.Sublist (methods.flatMap MethodItem.references) := by
  obtain ⟨⟨item, n⟩, hmem, h⟩ := List.mem_flatMap.1 h
  cases item with
  | ref ref => cases h
  | inline m =>
    exact (Method.entry_references h).trans
      (sublist_flatMap (f := MethodItem.references) (x := .inline m)
        (List.fst_mem_of_mem_zipIdx hmem))

mutual

theorem Resource.entry_references (path : List String) (steps : List Step) :
    ∀ (r : Resource) {e : Entry}, e ∈ r.entries path steps →
      e.definition.references.Sublist r.references
  | ⟨id, uriPath, types, queryType, params, methods, resources, docs⟩, e, h => by
    unfold Resource.entries at h
    rcases List.mem_append.1 h with h | h
    · rcases List.mem_append.1 h with h | h
      · -- the resource itself
        split at h
        · split at h
          · cases h
          · rw [List.mem_singleton.1 h]
            exact List.Sublist.refl _
        · cases h
      · rw [Resource.references, List.append_assoc]
        exact (methodEntries_references h).trans
          ((List.sublist_append_left _ _).trans (List.sublist_append_right _ _))
    · rw [Resource.references]
      exact (resourceEntries_references _ _ _ resources h).trans (List.sublist_append_right _ _)

theorem resourceEntries_references (path : List String) (steps : List Step) (n : Nat) :
    ∀ (rs : List Resource) {e : Entry}, e ∈ resourceEntries path steps n rs →
      e.definition.references.Sublist (resourceReferences rs)
  | [], e, h => by simp [resourceEntries] at h
  | r :: rs, e, h => by
    rw [resourceEntries] at h
    rw [resourceReferences]
    rcases List.mem_append.1 h with h | h
    · exact (Resource.entry_references _ _ r h).trans (List.sublist_append_left _ _)
    · exact (resourceEntries_references _ _ _ rs h).trans (List.sublist_append_right _ _)

end

theorem ResourceType.entry_references {type : ResourceType} {path : List String}
    {steps : List Step} {e : Entry} (h : e ∈ type.entries path steps) :
    e.definition.references.Sublist type.references := by
  unfold ResourceType.entries at h
  rcases List.mem_cons.1 h with rfl | h
  · exact List.Sublist.refl _
  · unfold ResourceType.references
    rcases List.mem_append.1 h with h | h
    · rw [List.append_assoc]
      exact (methodEntries_references h).trans
        ((List.sublist_append_left _ _).trans (List.sublist_append_right _ _))
    · exact (resourceEntries_references _ _ _ _ h).trans (List.sublist_append_right _ _)

/-- The references in what an identifier names are references of the document. -/
theorem Application.entry_references {app : Application} {e : Entry} (h : e ∈ app.entries) :
    e.definition.references.Sublist app.references := by
  unfold Application.entries at h
  unfold Application.references
  simp only [List.append_assoc, List.mem_append] at h ⊢
  rcases h with h | h | h | h | h
  · obtain ⟨⟨type, n⟩, hmem, h⟩ := List.mem_flatMap.1 h
    exact (ResourceType.entry_references h).trans
      ((sublist_flatMap (List.fst_mem_of_mem_zipIdx hmem)).trans
        ((List.sublist_append_left _ _).trans (List.sublist_append_right _ _)))
  · obtain ⟨⟨item, n⟩, hmem, rfl⟩ := List.mem_map.1 h
    exact (sublist_flatMap (f := RepresentationItem.references)
      (List.fst_mem_of_mem_zipIdx hmem)).trans
        ((List.sublist_append_left _ _).trans
          ((List.sublist_append_right _ _).trans (List.sublist_append_right _ _)))
  · obtain ⟨⟨item, n⟩, hmem, rfl⟩ := List.mem_map.1 h
    exact (sublist_flatMap (f := ParamItem.references) (List.fst_mem_of_mem_zipIdx hmem)).trans
      ((List.sublist_append_left _ _).trans ((List.sublist_append_right _ _).trans
        ((List.sublist_append_right _ _).trans (List.sublist_append_right _ _))))
  · obtain ⟨⟨m, n⟩, hmem, h⟩ := List.mem_flatMap.1 h
    have hm : e.definition.references.Sublist m.references := by
      rcases List.mem_cons.1 h with rfl | h
      · exact List.Sublist.refl _
      · exact Method.entry_references h
    exact hm.trans ((sublist_flatMap (List.fst_mem_of_mem_zipIdx hmem)).trans
      ((List.sublist_append_right _ _).trans ((List.sublist_append_right _ _).trans
        ((List.sublist_append_right _ _).trans (List.sublist_append_right _ _)))))
  · obtain ⟨⟨group, n⟩, hmem, h⟩ := List.mem_flatMap.1 h
    exact (resourceEntries_references _ _ _ _ h).trans
      ((sublist_flatMap (f := fun g => resourceReferences g.resources)
        (List.fst_mem_of_mem_zipIdx hmem)).trans (List.sublist_append_left _ _))

theorem Index.mem_entries {app : Application} {index : Index} {id : String} {e : Entry}
    (hindex : Index.ofApplication app = .ok index) (h : index.get? id = some e) :
    e ∈ app.entries := by
  unfold Index.ofApplication at hindex
  split at hindex
  · rw [← Except.ok.inj hindex] at h
    exact List.mem_of_find?_eq_some h
  · cases hindex

end Wadl
