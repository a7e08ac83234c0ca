import Wadl.Proofs.Document.Entries

/-!
# What stands at a place

`Part.at?` goes down from a part of a description along some steps. `Application.Declares` says
which definitions declare an identifier where they stand, and what an identifier names does so where
the steps of its entry lead (`Application.declares_of_mem`, `Application.entry_at`).
-/

namespace Wadl

/-- A part of a description that steps lead to or through. -/
inductive Part where
  | application (app : Application)
  | group (group : ResourceGroup)
  | resource (resource : Resource)
  | resourceType (type : ResourceType)
  | representation (item : RepresentationItem)
  | param (item : ParamItem)
  | method (item : MethodItem)
  | request (request : Request)
  | response (response : Response)

namespace Part

/-- The child of a part that a step leads to. -/
def child? : Part → Step → Option Part
  | application app, .group n => app.resources[n]?.map group
  | application app, .resourceType n => app.resourceTypes[n]?.map resourceType
  | application app, .representation n => app.representations[n]?.map representation
  | application app, .param n => app.params[n]?.map param
  | application app, .method n => app.methods[n]?.map fun m => method (.inline m)
  | group g, .resource n => g.resources[n]?.map resource
  | resource r, .resource n => r.resources[n]?.map resource
  | resource r, .method n => r.methods[n]?.map method
  | resourceType t, .resource n => t.resources[n]?.map resource
  | resourceType t, .method n => t.methods[n]?.map method
  | method (.inline m), .request => m.request.map request
  | method (.inline m), .response n => m.responses[n]?.map response
  | request r, .representation n => r.representations[n]?.map representation
  | response r, .representation n => r.representations[n]?.map representation
  | _, _ => none

/-- The part that some steps lead to. -/
def at? (p : Part) (steps : List Step) : Option Part :=
  steps.foldl (fun q s => q.bind (child? · s)) (some p)

theorem at?_append_singleton (p : Part) (steps : List Step) (s : Step) :
    p.at? (steps ++ [s]) = (p.at? steps).bind (child? · s) := by
  rw [at?, List.foldl_append]
  rfl

theorem at?_child {p q r : Part} {steps : List Step} {s : Step} (h : p.at? steps = some q)
    (hchild : q.child? s = some r) : p.at? (steps ++ [s]) = some r := by
  rw [at?_append_singleton, h, Option.bind_some, hchild]

/-- A description is no child. -/
theorem child?_ne_application {p : Part} {s : Step} {d : Application} :
    p.child? s ≠ some (.application d) := by
  unfold child?
  split <;> simp

end Part

/-- A definition as a part of its description. -/
def Definition.part : Definition → Part
  | resource r => .resource r
  | resourceType t => .resourceType t
  | representation item => .representation item
  | param item => .param item
  | method m => .method (.inline m)

/-- The representations that stand in a request or a response. -/
def Part.bodies : Part → List RepresentationItem
  | .request r => r.representations
  | .response r => r.representations
  | _ => []

/-- A definition at a place below a part declares an identifier: a resource, or a representation in
a request or a response. They need not have one, and an empty one is none. -/
inductive Part.Declares (root : Part) : String → Definition → List Step → Prop where
  | resource {steps : List Step} {r : Resource} {id : String}
      (stands : root.at? steps = some (.resource r))
      (hasId : r.id = some id) (filled : id.isEmpty = false) : Declares root id (.resource r) steps
  | body {steps : List Step} {p : Part} {n : Nat} {rep : Representation} {id : String}
      (stands : root.at? steps = some p) (within : p.bodies[n]? = some (.inline rep))
        (hasId : rep.id = some id)
      (filled : id.isEmpty = false) :
        Declares root id (.representation (.inline rep)) (steps ++ [.representation n])

/-- A definition at a place in a description declares an identifier: at the top a resource type, a
representation, a param or a method, and what does so below. -/
inductive Application.Declares (app : Application) : String → Definition → List Step → Prop where
  | resourceType {n : Nat} {t : ResourceType} (stands : app.resourceTypes[n]? = some t) :
      Declares app t.id (.resourceType t) [.resourceType n]
  | representation {n : Nat} {item : RepresentationItem}
      (stands : app.representations[n]? = some item) :
      Declares app (item.id.getD "") (.representation item) [.representation n]
  | param {n : Nat} {item : ParamItem} (stands : app.params[n]? = some item) :
      Declares app (item.id.getD "") (.param item) [.param n]
  | method {n : Nat} {m : Method} (stands : app.methods[n]? = some m) :
      Declares app (m.id.getD "") (.method m) [.method n]
  | below {id : String} {d : Definition} {steps : List Step}
      (declares : (Part.application app).Declares id d steps) : Declares app id d steps

section Entries

variable {root : Part} {path : List String} {steps : List Step} {e : Entry}

theorem getElem?_of_mem_zipIdx {α : Type} {xs : List α} {x : α} {n : Nat} (h : (x, n) ∈ xs.zipIdx) :
    xs[n]? = some x := by
  simpa using List.mk_mem_zipIdx_iff_getElem?.1 h

/-! ## The places of entries -/

/-- The entries of the representations of a request or a response are those that declare an
identifier. -/
theorem mem_bodyEntries_iff {items : List RepresentationItem} : e ∈ bodyEntries items path steps ↔
    ∃ rep n id, items[n]? = some (.inline rep) ∧ rep.id = some id ∧ id.isEmpty = false ∧
      e = ⟨id, .representation (.inline rep), path ++ [labelled "representation" id],
        steps ++ [.representation n]⟩ := by
  unfold bodyEntries
  rw [List.mem_filterMap]
  constructor
  · rintro ⟨⟨item, n⟩, hmem, h⟩
    cases item with
    | ref ref id => cases h
    | inline rep =>
      simp only at h
      split at h
      · rename_i id hid
        split at h
        · cases h
        · rename_i hfilled
          obtain rfl := Option.some.inj h
          exact ⟨rep, n, id, getElem?_of_mem_zipIdx hmem, hid, by simpa using hfilled, rfl⟩
      · cases h
  · rintro ⟨rep, n, id, hrep, hid, hfilled, rfl⟩
    refine ⟨(.inline rep, n), List.mk_mem_zipIdx_iff_getElem?.2 hrep, ?_⟩
    simp [hid, hfilled]

theorem bodyEntries_declare {p : Part} (hp : root.at? steps = some p)
    (h : e ∈ bodyEntries p.bodies path steps) : root.Declares e.id e.definition e.steps := by
  obtain ⟨rep, n, id, hrep, hid, hfilled, rfl⟩ := mem_bodyEntries_iff.1 h
  exact .body hp hrep hid hfilled

theorem Method.entry_declares {m : Method} (hm : root.at? steps = some (.method (.inline m)))
    (h : e ∈ m.entries path steps) : root.Declares e.id e.definition e.steps := by
  unfold Method.entries at h
  rcases List.mem_append.1 h with h | h
  · cases hreq : m.request with
    | none => simp [hreq] at h
    | some request =>
      rw [hreq] at h
      have hrequest : root.at? (steps ++ [.request]) = some (.request request) :=
        Part.at?_child hm (by rw [Part.child?, hreq]; rfl)
      exact bodyEntries_declare hrequest h
  · obtain ⟨⟨response, n⟩, hmem, h⟩ := List.mem_flatMap.1 h
    have hresponse : root.at? (steps ++ [.response n]) = some (.response response) :=
      Part.at?_child hm (by rw [Part.child?, getElem?_of_mem_zipIdx hmem]; rfl)
    exact bodyEntries_declare hresponse h

theorem methodEntries_declare {methods : List MethodItem} {p : Part} (hp : root.at? steps = some p)
    (hmethods : ∀ n, p.child? (.method n) = methods[n]?.map .method)
    (h : e ∈ methodEntries methods path steps) : root.Declares e.id e.definition e.steps := by
  obtain ⟨⟨item, n⟩, hmem, h⟩ := List.mem_flatMap.1 h
  cases item with
  | ref ref => cases h
  | inline m =>
    refine Method.entry_declares (Part.at?_child hp ?_) h
    rw [hmethods, getElem?_of_mem_zipIdx hmem]
    rfl

mutual

theorem Resource.entry_declares (path : List String) (steps : List Step) :
    ∀ (r : Resource) {e : Entry}, root.at? steps = some (.resource r) → e ∈ r.entries path steps →
      root.Declares e.id e.definition e.steps
  | ⟨id, uriPath, types, queryType, params, methods, resources, docs⟩, e, hr, h => by
    unfold Resource.entries at h
    rcases List.mem_append.1 h with h | h
    · rcases List.mem_append.1 h with h | h
      · -- the resource itself
        split at h
        · split at h
          · cases h
          · rename_i hfilled
            rw [List.mem_singleton.1 h]
            exact .resource hr rfl (by simpa using hfilled)
        · cases h
      · exact methodEntries_declare hr (fun n => rfl) h
    · exact resourceEntries_declare _ _ 0 resources hr (fun n => by rw [Nat.zero_add]; rfl) h

/-- The resources are the children of their part from the `n`-th on. -/
theorem resourceEntries_declare (path : List String) (steps : List Step) (n : Nat) :
    ∀ (rs : List Resource) {p : Part} {e : Entry}, root.at? steps = some p →
      (∀ k, p.child? (.resource (n + k)) = rs[k]?.map .resource) →
      e ∈ resourceEntries path steps n rs → root.Declares e.id e.definition e.steps
  | [], p, e, _, _, h => by simp [resourceEntries] at h
  | r :: rs, p, e, hp, hchildren, h => by
    rw [resourceEntries] at h
    rcases List.mem_append.1 h with h | h
    · exact Resource.entry_declares _ _ r (Part.at?_child hp (by simpa using hchildren 0)) h
    · refine resourceEntries_declare _ _ (n + 1) rs hp (fun k => ?_) h
      rw [Nat.add_assoc, Nat.add_comm 1 k, hchildren (k + 1), List.getElem?_cons_succ]

end

/-- What an entry names declares the identifier where the steps of the entry lead. -/
theorem Application.declares_of_mem {app : Application} (h : e ∈ app.entries) :
    app.Declares e.id e.definition e.steps := by
  have htop : ∀ {s : Step} {p : Part}, (Part.application app).child? s = some p →
      (Part.application app).at? [s] = some p := fun hs => hs
  unfold Application.entries at h
  simp only [List.append_assoc, List.mem_append] at h
  rcases h with h | h | h | h | h
  · obtain ⟨⟨type, n⟩, hmem, h⟩ := List.mem_flatMap.1 h
    have hn := getElem?_of_mem_zipIdx hmem
    have htype : (Part.application app).at? [.resourceType n] = some (.resourceType type) :=
      htop (by rw [Part.child?, hn]; rfl)
    unfold ResourceType.entries at h
    rcases List.mem_cons.1 h with rfl | h
    · exact .resourceType hn
    · rcases List.mem_append.1 h with h | h
      · exact .below (methodEntries_declare htype (fun n => rfl) h)
      · exact .below (resourceEntries_declare _ _ 0 _ htype (fun n => by rw [Nat.zero_add]; rfl) h)
  · obtain ⟨⟨item, n⟩, hmem, rfl⟩ := List.mem_map.1 h
    exact .representation (getElem?_of_mem_zipIdx hmem)
  · obtain ⟨⟨item, n⟩, hmem, rfl⟩ := List.mem_map.1 h
    exact .param (getElem?_of_mem_zipIdx hmem)
  · obtain ⟨⟨m, n⟩, hmem, h⟩ := List.mem_flatMap.1 h
    have hn := getElem?_of_mem_zipIdx hmem
    rcases List.mem_cons.1 h with rfl | h
    · exact .method hn
    · exact .below (Method.entry_declares (htop (by rw [Part.child?, hn]; rfl)) h)
  · obtain ⟨⟨group, n⟩, hmem, h⟩ := List.mem_flatMap.1 h
    have hgroup : (Part.application app).at? [.group n] = some (.group group) :=
      htop (by rw [Part.child?, getElem?_of_mem_zipIdx hmem]; rfl)
    exact .below (resourceEntries_declare _ _ 0 _ hgroup (fun n => by rw [Nat.zero_add]; rfl) h)

/-- A definition that declares an identifier stands where its steps lead. -/
theorem Application.Declares.at? {app : Application} {id : String} {d : Definition}
    {steps : List Step} (h : app.Declares id d steps) :
    (Part.application app).at? steps = some d.part := by
  have htop : ∀ {s : Step} {p : Part}, (Part.application app).child? s = some p →
      (Part.application app).at? [s] = some p := fun hs => hs
  cases h with
  | resourceType stands | representation stands | param stands | method stands =>
    exact htop (by rw [Part.child?, stands]; rfl)
  | below declares =>
    cases declares with
    | resource stands => exact stands
    | @body _ p n rep _ stands within =>
      refine Part.at?_child stands ?_
      have hchild : (p.bodies[n]?).map Part.representation =
        some (.representation (.inline rep)) := by rw [within]; rfl
      cases p with
      | request r | response r => exact hchild
      | _ => cases within

/-- What an identifier names stands where the steps of its entry lead. -/
theorem Application.entry_at {app : Application} (h : e ∈ app.entries) :
    (Part.application app).at? e.steps = some e.definition.part := (declares_of_mem h).at?

end Entries

end Wadl
