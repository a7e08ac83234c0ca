import Mathlib.Data.List.Induction
import Wadl.Proofs.Document.Parts
import Wadl.Proofs.Document.Reading
import Wadl.Proofs.Document.Sources

/-!
# What a description declares

The entries of a description are what declares an identifier in it, place by place
(`Application.exists_mem_entries_iff`). In a description that is read the identifiers differ, so
that its index has one entry for each place where one is declared (`index_exact`). The other names
that have to differ do so in each part (`Part.Distinct`, `distinct_of_readDescription`).
-/

namespace Wadl

/-! ## Entries of declarations -/

/-- The entries of what stands in a part; `path` and `steps` lead to the part. -/
def Part.entries (path : List String) (steps : List Step) : Part → List Entry
  | .application app => app.entries
  | .group g => resourceEntries path steps 0 g.resources
  | .resource r => r.entries path steps
  | .resourceType t => t.entries path steps
  | .method (.inline m) => m.entries path steps
  | .request r => bodyEntries r.representations path steps
  | .response r => bodyEntries r.representations path steps
  | _ => []

theorem mem_zipIdx_of_getElem? {α : Type} {xs : List α} {x : α} {n : Nat} (h : xs[n]? = some x) :
    (x, n) ∈ xs.zipIdx := List.mk_mem_zipIdx_iff_getElem?.2 h

theorem subset_resourceEntries (path : List String) (steps : List Step) {r : Resource} :
    ∀ {rs : List Resource} (k : Nat) {n : Nat}, rs[n]? = some r →
      r.entries path (steps ++ [.resource (k + n)]) ⊆ resourceEntries path steps k rs
  | [], k, n, h => by simp at h
  | r' :: rs, k, 0, h => by
    obtain rfl : r' = r := by simpa using h
    rw [resourceEntries, Nat.add_zero]
    exact List.subset_append_left _ _
  | r' :: rs, k, n + 1, h => by
    rw [resourceEntries, Nat.add_comm n 1, ← Nat.add_assoc]
    exact List.subset_append_of_subset_right _
      (subset_resourceEntries path steps (k + 1) (by simpa using h))

theorem subset_methodEntries (path : List String) (steps : List Step) {methods : List MethodItem}
    {item : MethodItem} {n : Nat} (h : methods[n]? = some item) :
    ∃ path', (Part.method item).entries path' (steps ++ [.method n]) ⊆ methodEntries
      methods path steps := by
  cases item with
  | ref r => exact ⟨path, List.nil_subset _⟩
  | inline m =>
    exact ⟨_, fun e he => List.mem_flatMap.2 ⟨(.inline m, n), mem_zipIdx_of_getElem? h, he⟩⟩

/-- The entries of a child of a part are among those of the part. -/
theorem Part.entries_child? {p q : Part} {s : Step} (path : List String) {steps : List Step}
    (h : p.child? s = some q) (htop : ∀ app, p = .application app → steps = []) :
    ∃ path', q.entries path' (steps ++ [s]) ⊆ p.entries path steps := by
  unfold child? at h
  split at h <;> try obtain ⟨x, hx, rfl⟩ := Option.map_eq_some_iff.1 h
  case h_1 app n =>
    obtain rfl := htop app rfl
    refine ⟨["application", "resources"], fun e he => List.mem_append_right _ ?_⟩
    exact List.mem_flatMap.2 ⟨(x, n), mem_zipIdx_of_getElem? hx, he⟩
  case h_2 app n =>
    obtain rfl := htop app rfl
    refine ⟨["application"], fun e he => ?_⟩
    simp only [entries, Application.entries, List.append_assoc, List.mem_append]
    exact .inl (List.mem_flatMap.2 ⟨(x, n), mem_zipIdx_of_getElem? hx, he⟩)
  case h_3 app n => exact ⟨path, List.nil_subset _⟩
  case h_4 app n => exact ⟨path, List.nil_subset _⟩
  case h_5 app n =>
    obtain rfl := htop app rfl
    refine ⟨["application", labelled "method" (x.id.getD "")], fun e he => ?_⟩
    simp only [entries, Application.entries, List.append_assoc, List.mem_append]
    refine .inr (.inr (.inr (.inl (List.mem_flatMap.2 ⟨(x, n), mem_zipIdx_of_getElem? hx, ?_⟩))))
    exact List.mem_cons_of_mem _ he
  case h_6 g n =>
    have hsub := subset_resourceEntries path steps 0 hx
    rw [Nat.zero_add] at hsub
    exact ⟨path, hsub⟩
  case h_7 r n =>
    have hsub :=
      subset_resourceEntries (path ++ [labelled "resource" (firstNonEmpty [r.id, r.path])])
        steps 0 hx
    rw [Nat.zero_add] at hsub
    exact ⟨_, List.Subset.trans hsub (by cases r; exact List.subset_append_right _ _)⟩
  case h_8 r n =>
    obtain ⟨path', hsub⟩ := subset_methodEntries
      (path ++ [labelled "resource" (firstNonEmpty [r.id, r.path])]) steps hx
    refine ⟨path', List.Subset.trans hsub ?_⟩
    cases r
    exact List.subset_append_of_subset_left _ (List.subset_append_right _ _)
  case h_9 t n =>
    have hsub := subset_resourceEntries (path ++ [labelled "resource_type" t.id]) steps 0 hx
    rw [Nat.zero_add] at hsub
    exact ⟨_, List.Subset.trans hsub (List.subset_cons_of_subset _ (List.subset_append_right _ _))⟩
  case h_10 t n =>
    obtain ⟨path', hsub⟩ := subset_methodEntries (path ++ [labelled "resource_type" t.id]) steps hx
    exact ⟨path', List.Subset.trans hsub
      (List.subset_cons_of_subset _ (List.subset_append_left _ _))⟩
  case h_11 m =>
    refine ⟨path ++ ["request"], fun e he => List.mem_append_left _ ?_⟩
    rw [hx]
    exact he
  case h_12 m n =>
    refine ⟨path ++ ["response"], fun e he => List.mem_append_right _ ?_⟩
    exact List.mem_flatMap.2 ⟨(x, n), mem_zipIdx_of_getElem? hx, he⟩
  case h_13 r n => exact ⟨path, List.nil_subset _⟩
  case h_14 r n => exact ⟨path, List.nil_subset _⟩
  case h_15 => cases h

/-- The entries of a part that steps lead to are among those of the description. -/
theorem Application.entries_at? {app : Application} {steps : List Step} : ∀ {q : Part},
    (Part.application app).at? steps = some q →
      (∀ app', q = .application app' → steps = []) ∧ ∃ path,
        q.entries path steps ⊆ app.entries := by
  induction steps using List.reverseRecOn with
  | nil =>
    rintro q ⟨⟩
    exact ⟨fun _ _ => rfl, [], List.Subset.refl _⟩
  | append_singleton steps s ih =>
    intro q hq
    rw [Part.at?_append_singleton] at hq
    obtain ⟨p, hp, hchild⟩ := Option.bind_eq_some_iff.1 hq
    obtain ⟨htop, path, hsub⟩ := ih hp
    obtain ⟨path', hsub'⟩ := Part.entries_child? path hchild htop
    refine ⟨?_, path', List.Subset.trans hsub' hsub⟩
    rintro app' rfl
    exact absurd hchild Part.child?_ne_application

/-- The entries of a description are what declares an identifier in it. -/
theorem Application.exists_mem_entries_iff {app : Application} {id : String} {d : Definition}
    {steps : List Step} :
    (∃ path, ⟨id, d, path, steps⟩ ∈ app.entries) ↔ app.Declares id d steps := by
  constructor
  · rintro ⟨path, h⟩
    exact declares_of_mem h
  · intro h
    cases h with
    | @resourceType n t stands =>
      refine ⟨["application", labelled "resource_type" t.id], ?_⟩
      simp only [entries, List.append_assoc, List.mem_append]
      exact .inl (List.mem_flatMap.2 ⟨(t, n), mem_zipIdx_of_getElem? stands, List.mem_cons_self⟩)
    | @representation n item stands =>
      refine ⟨["application", labelled "representation" (item.id.getD "")], ?_⟩
      simp only [entries, List.append_assoc, List.mem_append]
      exact .inr (.inl (List.mem_map.2 ⟨(item, n), mem_zipIdx_of_getElem? stands, rfl⟩))
    | @param n item stands =>
      refine ⟨["application", labelled "param" (item.id.getD "")], ?_⟩
      simp only [entries, List.append_assoc, List.mem_append]
      exact .inr (.inr (.inl (List.mem_map.2 ⟨(item, n), mem_zipIdx_of_getElem? stands, rfl⟩)))
    | @method n m stands =>
      refine ⟨["application", labelled "method" (m.id.getD "")], ?_⟩
      simp only [entries, List.append_assoc, List.mem_append]
      refine .inr (.inr
        (.inr (.inl (List.mem_flatMap.2 ⟨(m, n), mem_zipIdx_of_getElem? stands, ?_⟩))))
      exact List.mem_cons_self
    | below declares =>
      cases declares with
      | @resource _ r _ stands hasId filled =>
        obtain ⟨-, path, hsub⟩ := entries_at? stands
        refine ⟨path ++ [labelled "resource" (firstNonEmpty [r.id, r.path])], hsub ?_⟩
        obtain ⟨_, uriPath, types, queryType, params, methods, resources, docs⟩ := r
        obtain rfl := hasId
        refine List.mem_append_left _ (List.mem_append_left _ ?_)
        simp [filled]
      | @body steps p n rep _ stands within hasId filled =>
        obtain ⟨-, path, hsub⟩ := entries_at? stands
        refine ⟨path ++ [labelled "representation" id], hsub ?_⟩
        have hbody : ⟨id, .representation (.inline rep), path ++ [labelled "representation" id],
            steps ++ [.representation n]⟩ ∈ bodyEntries p.bodies path steps :=
          mem_bodyEntries_iff.2 ⟨rep, n, id, within, hasId, filled, rfl⟩
        cases p with
        | request r | response r => exact hbody
        | _ => cases within

/-! ## The index -/

/-- What an identifier names is the entry that has it. -/
theorem Index.get?_eq_some_iff {index : Index} {id : String} {e : Entry} :
    index.get? id = some e ↔ e ∈ index.entries ∧ e.id = id := by
  have hnodup := (repeatedEntry?_eq_none.1 index.unique).1
  unfold get?
  generalize index.entries = entries at hnodup
  induction entries with
  | nil => simp
  | cons first entries ih =>
    rw [List.map_cons, List.nodup_cons] at hnodup
    rw [List.find?_cons, List.mem_cons]
    by_cases hfirst : first.id = id
    · simp only [hfirst, decide_true, Option.some.injEq]
      constructor
      · rintro rfl
        exact ⟨.inl rfl, hfirst⟩
      · rintro ⟨rfl | he, hid⟩
        · rfl
        · exact absurd (hid.trans hfirst.symm ▸ List.mem_map_of_mem he) hnodup.1
    · simp only [hfirst, decide_false]
      refine (ih hnodup.2).trans ⟨?_, ?_⟩
      · rintro ⟨he, hid⟩
        exact ⟨.inr he, hid⟩
      · rintro ⟨rfl | he, hid⟩
        · exact absurd hid hfirst
        · exact ⟨he, hid⟩

/-- A description whose identifiers differ has an index, with one entry for each place where one is
declared. -/
theorem index_exact {app : Application} (h : repeatedEntry? [] app.entries = none) :
    ∃ index, Index.ofApplication app = .ok index ∧ index.entries = app.entries ∧
      ∀ id d steps, app.Declares id d steps ↔
        ∃ entry, index.get? id = some entry ∧ entry.definition = d ∧ entry.steps = steps := by
  refine ⟨⟨app.baseUri, app.entries, h⟩, ?_, rfl, fun id d steps => ?_⟩
  · unfold Index.ofApplication
    split
    · rfl
    · rename_i hrepeated
      rw [h] at hrepeated
      cases hrepeated
  · rw [← Application.exists_mem_entries_iff]
    constructor
    · rintro ⟨path, hmem⟩
      exact ⟨_, Index.get?_eq_some_iff.2 ⟨hmem, rfl⟩, rfl, rfl⟩
    · rintro ⟨⟨id', d', path, steps'⟩, hget, rfl, rfl⟩
      obtain ⟨hmem, rfl⟩ := Index.get?_eq_some_iff.1 hget
      exact ⟨path, hmem⟩

/-! ## Names in one part -/

/-- The params that stand in a part; a param stands in itself. -/
def Part.params : Part → List ParamItem
  | .resource r => r.params
  | .resourceType t => t.params
  | .representation (.inline r) => r.params
  | .param item => [item]
  | .request r => r.params
  | .response r => r.params
  | _ => []

/-- The methods that stand in a part. -/
def Part.methods : Part → List MethodItem
  | .resource r => r.methods
  | .resourceType t => t.methods
  | _ => []

/-- In a part the names of the params differ, the values of each of them, and the identifiers of the
methods. -/
structure Part.Distinct (p : Part) : Prop where
  paramNames : (Wadl.paramNames p.params).Nodup
  optionValues : ∀ q, .inline q ∈ p.params → (q.options.map (·.value)).Nodup
  methodIds : (p.methods.filterMap Reader.methodId?).Nodup

/-- A part of a description is sound. -/
def Part.Sound (c : Criteria) : Part → Prop
  | .application app => app.PartsSound c
  | .group g => g.Sound c
  | .resource r => ∃ inherited, r.Sound c inherited
  | .resourceType t => t.Sound c
  | .representation item => ∃ location, item.Sound c location
  | .param item => ∃ location, item.Sound c location
  | .method item => item.Sound c
  | .request r => r.Sound c
  | .response r => r.Sound c

section Sound

variable {c : Criteria}

theorem Resource.Sound.child {inherited : List String} {r s : Resource} (h : r.Sound c inherited)
    (hs : s ∈ r.resources) : ∃ inherited', s.Sound c inherited' := by
  cases h with
  | mk _ _ _ _ _ _ resources => exact ⟨_, resources s hs⟩

/-- The parts of a sound part are sound. -/
theorem Part.Sound.child? {p q : Part} {s : Step} (hp : p.Sound c) (h : p.child? s = some q) :
    q.Sound c := by
  unfold Part.child? at h
  split at h <;> try obtain ⟨x, hx, rfl⟩ := Option.map_eq_some_iff.1 h
  case h_1 => exact hp.resources x (List.mem_of_getElem? hx)
  case h_2 => exact hp.resourceTypes x (List.mem_of_getElem? hx)
  case h_3 => exact ⟨_, hp.representations x (List.mem_of_getElem? hx)⟩
  case h_4 => exact ⟨_, hp.params x (List.mem_of_getElem? hx)⟩
  case h_5 => exact ⟨by rintro _ ⟨⟩; exact (hp.methods x (List.mem_of_getElem? hx)).1, nofun⟩
  case h_6 => exact ⟨_, hp.resources x (List.mem_of_getElem? hx)⟩
  case h_7 =>
    obtain ⟨inherited, hp⟩ := hp
    exact hp.child (List.mem_of_getElem? hx)
  case h_8 =>
    obtain ⟨inherited, hp⟩ := hp
    cases hp with
    | mk _ _ _ methods => exact methods.items x (List.mem_of_getElem? hx)
  case h_9 => exact ⟨_, hp.resources x (List.mem_of_getElem? hx)⟩
  case h_10 => exact hp.methods.items x (List.mem_of_getElem? hx)
  case h_11 m => exact (hp.inline m rfl).request x hx
  case h_12 m n => exact (hp.inline m rfl).responses x (List.mem_of_getElem? hx)
  case h_13 => exact ⟨_, hp.representations x (List.mem_of_getElem? hx)⟩
  case h_14 => exact ⟨_, hp.representations x (List.mem_of_getElem? hx)⟩
  case h_15 => cases h

theorem Part.Sound.at? {p q : Part} {steps : List Step} (hp : p.Sound c)
    (h : p.at? steps = some q) : q.Sound c := by
  refine List.foldlRecOn steps _ (motive := fun o => ∀ q, o = some q → q.Sound c) ?_ ?_ q h
  · intro q hq
    rw [← Option.some.inj hq]
    exact hp
  · intro o ih s _ q hq
    obtain ⟨r, hr, hchild⟩ := Option.bind_eq_some_iff.1 hq
    exact (ih r hr).child? hchild

theorem ParamsSound.values {location : ElementKind} {params : List ParamItem}
    (h : ParamsSound c location params) :
    ∀ q, .inline q ∈ params → (q.options.map (·.value)).Nodup :=
  fun q hq => ((h.items _ hq).inline q rfl).values

/-- The names in a sound part differ. -/
theorem Part.Sound.distinct {p : Part} (h : p.Sound c) : p.Distinct := by
  have hnone : ∀ q : Param, .inline q ∈ ([] : List ParamItem) → (q.options.map (·.value)).Nodup :=
    fun _ hq => absurd hq List.not_mem_nil
  cases p with
  | application _ | group _ | method _ => exact ⟨List.nodup_nil, hnone, List.nodup_nil⟩
  | resource r =>
    obtain ⟨inherited, h⟩ := h
    cases h with
    | mk _ _ params methods => exact ⟨params.names, params.values, methods.ids⟩
  | resourceType t => exact ⟨h.params.names, h.params.values, h.methods.ids⟩
  | representation item =>
    obtain ⟨location, h⟩ := h
    cases item with
    | inline r =>
      exact ⟨(h.inline r rfl).params.names, (h.inline r rfl).params.values, List.nodup_nil⟩
    | ref r id => exact ⟨List.nodup_nil, hnone, List.nodup_nil⟩
  | param item =>
    obtain ⟨location, h⟩ := h
    refine ⟨?_, fun q hq => ?_, List.nodup_nil⟩
    · cases item with
      | inline q => exact List.nodup_singleton q.name
      | ref r id => exact List.nodup_nil
    · exact (h.inline q (List.mem_singleton.1 hq).symm).values
  | request r | response r => exact ⟨h.params.names, h.params.values, List.nodup_nil⟩

end Sound

/-- In a description that is read the names in each part differ. -/
theorem distinct_of_readDescription {base : String} {strict : Bool} {root : Xml.Node}
    {app : Application} (h : Yields (readDescription base strict root) app)
    {steps : List Step} {p : Part} (hp : (Part.application app).at? steps = some p) : p.Distinct :=
  (Part.Sound.at? (p := .application app) (readDescription_sound_loose h).toPartsSound hp).distinct

end Wadl
