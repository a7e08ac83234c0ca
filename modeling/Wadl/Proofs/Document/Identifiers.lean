import Wadl.Proofs.Document.Declarations
import Wadl.Proofs.Document.Gathering
import Wadl.Proofs.Document.Sites

/-!
# Which identifiers a document has

`identifiersIn` reads the identifiers of a document off its tree, and a description that is read has
the entries for them (`idsOf_readApplication`). They differ in a description that is read, as do the
names in each element, and a document is refused for an identifier only if it stands twice
(`identifiers_checked`).
-/

namespace Wadl

open Reader

namespace Reader

/-! ## Identifiers of a tree -/

/-- The identifiers of the representations in a request or a response. -/
def bodyIdsIn (content : List Xml.Node) : List String :=
  (childrenOf .representation content).filterMap (·.ownId?)

/-- The identifiers of the representations in a method. -/
def representationIdsIn (content : List Xml.Node) : List String :=
  (childrenOf .request content).flatMap (fun e => bodyIdsIn e.content) ++
    (childrenOf .response content).flatMap fun e => bodyIdsIn e.content

/-- The identifiers of the representations in the methods of a resource or a resource type. -/
def inlineIdsIn (content : List Xml.Node) : List String :=
  (childrenOf .method content).flatMap fun e =>
    if (e.get? "href").isSome then [] else representationIdsIn e.content

mutual

/-- The identifiers of a resource, if a piece is one: its own, and those of what stands in it. -/
def resourceIds : Xml.Node → List String
  | .element tag content =>
    if isResourceTag tag then
      ((tag.get? "id").filter (!·.isEmpty)).toList ++ inlineIdsIn content ++ resourceIdsIn content
    else []
  | _ => []

/-- The identifiers of the resources among some content. -/
def resourceIdsIn : List Xml.Node → List String
  | [] => []
  | n :: rest => resourceIds n ++ resourceIdsIn rest

end

/-- The identifiers of a document, of which this is the content of the root: those of its resource
types, its representations, params and methods and its resources, each with those in it. -/
def identifiersIn (content : List Xml.Node) : List String :=
  (childrenOf .resourceType content).flatMap
      (fun e => (e.get? "id").toList ++ (inlineIdsIn e.content ++ resourceIdsIn e.content)) ++
    (childrenOf .representation content).filterMap (·.get? "id") ++
    (childrenOf .param content).filterMap (·.get? "id") ++
    (childrenOf .method content).flatMap
      (fun e => (e.get? "id").toList ++ representationIdsIn e.content) ++
    (childrenOf .resources content).flatMap fun e => resourceIdsIn e.content

end Reader

/-! ## Identifiers of what is read -/

/-- The identifier of a representation, if it stands here and has one that is not empty. -/
def RepresentationItem.ownId? : RepresentationItem → Option String
  | .inline r => r.id.filter (!·.isEmpty)
  | .ref .. => none

/-- The identifiers of the definitions of one kind that a description has itself. -/
def Application.topIds (app : Application) : ElementKind → List (Option String)
  | .resourceType => app.resourceTypes.map (some ·.id)
  | .representation => app.representations.map (·.id)
  | .param => app.params.map (·.id)
  | .method => app.methods.map (·.id)
  | _ => []

/-- The identifiers of a body are those of its own representations. -/
theorem idsOf_bodyEntries (items : List RepresentationItem) (path : List String)
    (steps : List Step) :
    idsOf (bodyEntries items path steps) = items.filterMap RepresentationItem.ownId? := by
  have hitems : items = items.zipIdx.map Prod.fst := by simp
  conv_rhs => rw [hitems]
  unfold idsOf bodyEntries
  rw [List.map_filterMap, List.filterMap_map]
  refine List.filterMap_congr fun ⟨item, n⟩ _ => ?_
  cases item with
  | ref r id => rfl
  | inline r =>
    simp only [Function.comp_apply, RepresentationItem.ownId?]
    cases r.id with
    | none => rfl
    | some id => by_cases h : id.isEmpty = true <;> simp [Option.filter, h]

/-- Entries that are made of parts have the identifiers of the elements of which the parts were
made. -/
theorem idsOf_flatMap_of_forall₂ {α β : Type} {R : β → α → Prop} {f : α × Nat → List Entry}
    {g : β → List String} (h : ∀ x y n, R y x → idsOf (f (x, n)) = g y) {xs : List α} {ys : List β}
    (hxs : List.Forall₂ R ys xs) : ∀ n, idsOf ((xs.zipIdx n).flatMap f) = ys.flatMap g := by
  induction hxs with
  | nil => intro n; rfl
  | cons hx _ ih =>
    intro n
    rw [List.zipIdx_cons, List.flatMap_cons, idsOf_append, h _ _ _ hx,
      ih (n + 1), List.flatMap_cons]

/-- Entries of the parts themselves have the identifiers of the elements of which the parts were
made. -/
theorem idsOf_map_of_forall₂ {α β : Type} {R : β → α → Prop} {f : α × Nat → Entry}
    {g : β → Option String} (h : ∀ x y n, R y x → g y = some (f (x, n)).id) {xs : List α}
    {ys : List β} (hxs : List.Forall₂ R ys xs) :
    ∀ n, idsOf ((xs.zipIdx n).map f) = ys.filterMap g := by
  induction hxs with
  | nil => intro n; rfl
  | cons hx _ ih =>
    intro n
    rw [List.zipIdx_cons, List.map_cons, List.filterMap_cons_some (h _ _ n hx), ← ih (n + 1)]
    rfl

namespace Reader

section Readers

variable {pos : Position} {k : ElementKind} {e : Element} {found : List (ElementKind × Element)}

/-- A representation keeps the identifier of its element; so do the other parts, one lemma for each
kind below. -/
theorem yields_readRepresentation_id {item : RepresentationItem}
    (h : Yields (readRepresentation pos k e) item) :
    item.ownId? = e.ownId? ∧ (k = .application → item.id = e.get? "id") := by
  simp only [readRepresentation] at h
  obtain ⟨_, -, h⟩ := h.bind
  split at h
  · rename_i href hhref
    obtain ⟨r, -, h⟩ := h.bind
    rw [← h.pure]
    exact ⟨by simp [RepresentationItem.ownId?, Element.ownId?, Element.own?, hhref],
      fun hk => by simp [RepresentationItem.id, aliasId, hk]⟩
  · rename_i hhref
    obtain ⟨r, hr, h⟩ := h.bind
    rw [← h.pure]
    obtain ⟨_, -, hr⟩ := hr.bind
    obtain ⟨_, -, hr⟩ := hr.bind
    obtain rfl := hr.pure
    exact ⟨by simp [RepresentationItem.ownId?, Element.ownId?, Element.own?, hhref], fun _ => rfl⟩

theorem yields_readParam_id {item : ParamItem} (h : Yields (readParam pos .application e) item) :
    item.id = e.get? "id" := by
  simp only [readParam] at h
  obtain ⟨_, -, h⟩ := h.bind
  split at h
  · obtain ⟨r, -, h⟩ := h.bind
    rw [← h.pure]
    rfl
  · obtain ⟨p, hp, h⟩ := h.bind
    rw [← h.pure]
    simp only [readParamBody] at hp
    obtain ⟨_, -, hp⟩ := hp.bind
    obtain ⟨_, -, hp⟩ := hp.bind
    obtain ⟨_, -, hp⟩ := hp.bind
    obtain ⟨_, -, hp⟩ := hp.bind
    obtain ⟨_, -, hp⟩ := hp.bind
    obtain ⟨_, -, hp⟩ := hp.bind
    obtain ⟨_, -, hp⟩ := hp.bind
    obtain ⟨_, -, hp⟩ := hp.bind
    rw [← hp.pure]
    rfl

/-- The items of an element are its children, kind by kind. -/
theorem ofKind_of_yields {content : List Xml.Node} (h : Yields (items pos k content) found)
    (kind : ElementKind) : ofKind kind found = childrenOf kind content := by
  rw [← filterMap_of_items h, childrenOf]

theorem idsOf_readRepresentations {content : List Xml.Node}
    {items : List RepresentationItem} {l : ElementKind}
    (hfound : Yields (Reader.items pos l content) found)
    (h : Yields (readRepresentations pos k found) items) (path : List String) (steps : List Step) :
    idsOf (bodyEntries items path steps) = bodyIdsIn content := by
  rw [idsOf_bodyEntries, bodyIdsIn, ← ofKind_of_yields hfound]
  exact filterMap_of_forall₂ (h.mapM.imp fun _ _ hread => (yields_readRepresentation_id hread).1)

theorem idsOf_readRequest {r : Request} (h : Yields (readRequest pos e) r) (path : List String)
    (steps : List Step) :
    idsOf (bodyEntries r.representations path steps) = bodyIdsIn e.content := by
  obtain ⟨found, hfound, h⟩ := h.bind
  obtain ⟨_, -, h⟩ := h.bind
  obtain ⟨items, hitems, h⟩ := h.bind
  rw [← h.pure]
  exact idsOf_readRepresentations hfound hitems path steps

theorem idsOf_readResponse {r : Response} (h : Yields (readResponse pos e) r) (path : List String)
    (steps : List Step) :
    idsOf (bodyEntries r.representations path steps) = bodyIdsIn e.content := by
  simp only [readResponse] at h
  obtain ⟨_, -, h⟩ := h.bind
  obtain ⟨found, hfound, h⟩ := h.bind
  obtain ⟨_, -, h⟩ := h.bind
  obtain ⟨items, hitems, h⟩ := h.bind
  rw [← h.pure]
  exact idsOf_readRepresentations hfound hitems path steps

theorem idsOf_readOnlyRequest {es : List Element} {request : Option Request} (path : List String)
    (steps : List Step) : Yields (readOnlyRequest pos es) request →
      idsOf (match request with
        | some r => bodyEntries r.representations path steps
        | none => []) = es.flatMap fun e => bodyIdsIn e.content := by
  intro h
  match es with
  | [] =>
    obtain rfl := h.pure
    rfl
  | [e] =>
    obtain ⟨r, hr, rfl⟩ := h.map
    simpa using idsOf_readRequest hr path steps
  | _ :: _ :: _ => exact absurd h not_yields_throw

/-- The identifiers found in a method are those in its element. -/
theorem idsOf_readMethodBody {m : Method} (h : Yields (readMethodBody pos e) m) (path : List String)
    (steps : List Step) : idsOf (m.entries path steps) = representationIdsIn e.content := by
  simp only [readMethodBody] at h
  obtain ⟨name, -, h⟩ := h.bind
  obtain ⟨found, hfound, h⟩ := h.bind
  obtain ⟨request, hrequest, h⟩ := h.bind
  obtain ⟨responses, hresponses, h⟩ := h.bind
  obtain rfl := h.pure
  rw [Method.entries, idsOf_append, representationIdsIn, ← ofKind_of_yields hfound,
    ← ofKind_of_yields hfound]
  congr 1
  · exact idsOf_readOnlyRequest _ _ hrequest
  · exact idsOf_flatMap_of_forall₂ (fun r e' n hread => idsOf_readResponse hread _ _)
      hresponses.mapM 0

theorem idsOf_readMethods {content : List Xml.Node} {methods : List MethodItem}
    (hfound : Yields (items pos k content) found) (h : Yields (readMethods pos found) methods)
    (path : List String) (steps : List Step) :
    idsOf (methodEntries methods path steps) = inlineIdsIn content := by
  obtain ⟨ms, hms, h⟩ := h.bind
  obtain ⟨_, -, h⟩ := h.bind
  obtain rfl := h.pure
  rw [inlineIdsIn, ← ofKind_of_yields hfound]
  refine idsOf_flatMap_of_forall₂ (fun item e' n hread => ?_) hms.mapM 0
  simp only [readMethod] at hread
  split at hread
  · rename_i href hhref
    obtain ⟨r, -, hread⟩ := hread.bind
    rw [← hread.pure]
    simp [hhref, idsOf]
  · rename_i hhref
    obtain ⟨m, hm, hread⟩ := hread.bind
    rw [← hread.pure]
    simpa [hhref] using idsOf_readMethodBody hm _ _

mutual

/-- The identifiers of a resource, and of all below it, are those in its element, in order; by
induction on the nodes. -/
theorem idsOf_readIfResource :
    ∀ (n : Xml.Node) {pos : Position} {inherited : List String} {r : Option Resource},
    Yields (readIfResource pos inherited n) r → ∀ path steps k,
      idsOf (resourceEntries path steps k r.toList) = resourceIds n
  | .element tag content, pos, inherited, r, h, path, steps, k => by
    rw [readIfResource] at h
    rw [resourceIds]
    split at h
    · rename_i htag
      rw [if_pos htag]
      obtain ⟨r, hr, rfl⟩ := h.map
      simp only [readResource] at hr
      obtain ⟨found, hfound, hr⟩ := hr.bind
      obtain ⟨params, -, hr⟩ := hr.bind
      obtain ⟨methods, hmethods, hr⟩ := hr.bind
      obtain ⟨types, -, hr⟩ := hr.bind
      obtain ⟨resources, hresources, hr⟩ := hr.bind
      obtain ⟨_, -, hr⟩ := hr.bind
      obtain rfl := hr.pure
      rw [Option.toList_some, resourceEntries, resourceEntries, List.append_nil,
        Resource.entries.eq_def]
      simp only [idsOf_append, idsOf_readMethods hfound hmethods,
        idsOf_readResources content hresources]
      congr 2
      show idsOf (match tag.get? "id" with | some i => _ | none => _) = _
      cases tag.get? "id" with
      | none => rfl
      | some id => by_cases hempty : id.isEmpty = true <;> simp [idsOf, Option.filter, hempty]
    · rename_i htag
      rw [if_neg htag, ← h.pure]
      rfl
  | .text _, _, _, _, h, _, _, _ | .comment _, _, _, _, h, _, _, _ | .instruction _, _, _,
      _, h, _, _, _ => by
    rw [← h.pure]
    rfl

/-- The resources that are read have the identifiers of their elements, whatever stands before
them. -/
theorem idsOf_readResources : ∀ (content : List Xml.Node) {pos : Position} {inherited : List String}
    {rs : List Resource}, Yields (readResources pos inherited content) rs → ∀ path steps k,
      idsOf (resourceEntries path steps k rs) = resourceIdsIn content
  | [], _, _, _, h, _, _, _ => by
    rw [readResources] at h
    rw [← h.pure]
    rfl
  | n :: rest, pos, inherited, rs, h, path, steps, k => by
    rw [readResources] at h
    obtain ⟨first, hfirst, h⟩ := h.bind
    obtain ⟨more, hmore, h⟩ := h.bind
    rw [← h.pure, resourceIdsIn, ← idsOf_readIfResource n hfirst path steps k]
    cases first with
    | none =>
      rw [← idsOf_readResources rest hmore path steps k]
      rfl
    | some r =>
      rw [← idsOf_readResources rest hmore path steps (k + 1)]
      simp [resourceEntries, idsOf_append]

end

theorem idsOf_readResourceType {t : ResourceType} (h : Yields (readResourceType pos e) t)
    (path : List String) (steps : List Step) : idsOf (t.entries path steps) =
      (e.get? "id").toList ++ (inlineIdsIn e.content ++ resourceIdsIn e.content) := by
  simp only [readResourceType] at h
  obtain ⟨id, hid, h⟩ := h.bind
  obtain ⟨found, hfound, h⟩ := h.bind
  obtain ⟨params, -, h⟩ := h.bind
  obtain ⟨methods, hmethods, h⟩ := h.bind
  obtain ⟨resources, hresources, h⟩ := h.bind
  obtain rfl := h.pure
  rw [yields_required hid, ResourceType.entries, Option.toList_some, List.singleton_append,
    ← idsOf_readMethods hfound hmethods (path ++ [labelled "resource_type" id]) steps,
    ← idsOf_readResources e.content hresources (path ++ [labelled "resource_type" id]) steps 0,
    ← idsOf_append]
  rfl

theorem idsOf_readGroup {g : ResourceGroup} (h : Yields (readGroup pos e) g) (path : List String)
    (steps : List Step) :
    idsOf (resourceEntries path steps 0 g.resources) = resourceIdsIn e.content := by
  simp only [readGroup] at h
  obtain ⟨_, -, h⟩ := h.bind
  obtain ⟨resources, hresources, h⟩ := h.bind
  obtain rfl := h.pure
  exact idsOf_readResources e.content hresources path steps 0

/-- Where an identifier is required, there is one. -/
theorem isSome_of_requireId {inside : Position} {kind : ElementKind} {u : Unit}
    (h : Yields (requireId inside .application e kind) u) : ∃ id, e.get? "id" = some id := by
  simp only [requireId, if_pos, discard] at h
  obtain ⟨id, hid, -⟩ := h.map
  exact ⟨id, yields_required hid⟩

theorem idsOf_readTopMethod {m : Method} (h : Yields (readTopMethod pos e) m) (path : List String)
    (steps : List Step) :
    m.id = e.get? "id" ∧ m.id.getD "" :: idsOf (m.entries path steps) =
      (e.get? "id").toList ++ representationIdsIn e.content := by
  simp only [readTopMethod] at h
  obtain ⟨_, hrequired, h⟩ := h.bind
  obtain ⟨id, hid⟩ := isSome_of_requireId hrequired
  rw [yields_readMethodBody_id h, idsOf_readMethodBody h, hid]
  exact ⟨rfl, rfl⟩

/-- A definition of the document itself that is read has an identifier, which its element has. -/
theorem id_of_readResourceType {t : ResourceType} (h : Yields (readResourceType pos e) t) :
    e.get? "id" = some t.id := by
  simp only [readResourceType] at h
  obtain ⟨id, hid, h⟩ := h.bind
  obtain ⟨_, -, h⟩ := h.bind
  obtain ⟨_, -, h⟩ := h.bind
  obtain ⟨_, -, h⟩ := h.bind
  obtain ⟨_, -, h⟩ := h.bind
  rw [yields_required hid, ← h.pure]

theorem id_of_readRepresentation {item : RepresentationItem}
    (h : Yields (readRepresentation pos .application e) item) :
    ∃ id, item.id = some id ∧ e.get? "id" = some id := by
  have heq := (yields_readRepresentation_id h).2 rfl
  obtain ⟨_, hrequired, -⟩ := h.bind
  obtain ⟨id, hid⟩ := isSome_of_requireId hrequired
  exact ⟨id, heq.trans hid, hid⟩

theorem id_of_readParam {item : ParamItem} (h : Yields (readParam pos .application e) item) :
    ∃ id, item.id = some id ∧ e.get? "id" = some id := by
  have heq := yields_readParam_id h
  obtain ⟨_, hrequired, -⟩ := h.bind
  obtain ⟨id, hid⟩ := isSome_of_requireId hrequired
  exact ⟨id, heq.trans hid, hid⟩

end Readers

/-! ## Identifiers of a document -/

section Documents

variable {base : String} {strict : Bool} {pos : Position} {e : Element}
    {found : List (ElementKind × Element)}

/-- What is gathered from the root of a document has the identifiers of the document. -/
theorem idsOf_gathered {content : List Xml.Node} {parts : Application} (docs : List Doc)
    (hfound : Yields (items pos .application content) found) (h : Gathered Yields pos found parts) :
    idsOf (Application.plus ⟨base, docs, [], [], [], [], [], []⟩ parts).entries =
      identifiersIn content := by
  simp only [Application.entries, Application.plus, List.nil_append, idsOf_append, identifiersIn,
    ← ofKind_of_yields hfound]
  refine congrArg₂ _ (congrArg₂ _ (congrArg₂ _ (congrArg₂ _ ?_ ?_) ?_) ?_) ?_
  · exact idsOf_flatMap_of_forall₂ (fun t e' n hread => idsOf_readResourceType hread _ _)
      h.resourceTypes 0
  · refine idsOf_map_of_forall₂ (fun item e' n hread => ?_) h.representations 0
    obtain ⟨id, hid, he'⟩ := id_of_readRepresentation hread
    simp [hid, he']
  · refine idsOf_map_of_forall₂ (fun item e' n hread => ?_) h.params 0
    obtain ⟨id, hid, he'⟩ := id_of_readParam hread
    simp [hid, he']
  · refine idsOf_flatMap_of_forall₂ (fun m e' n hread => ?_) h.methods 0
    rw [← (idsOf_readTopMethod hread _ _).2]
    rfl
  · exact idsOf_flatMap_of_forall₂ (fun g e' n hread => idsOf_readGroup hread _ _) h.resources 0

/-- A description that is read has the identifiers of the document. -/
theorem idsOf_readApplication {app : Application}
    (h : Yields (readApplication base strict e.node) app) :
    idsOf app.entries = identifiersIn e.content := by
  simp only [Element.node, readApplication] at h
  split at h
  · obtain ⟨_, h, -⟩ := h.bind
    exact absurd h not_yields_throw
  · obtain ⟨found, hfound, h⟩ := h.bind
    obtain ⟨parts, rfl, hparts⟩ := gathered_of_yields h
    exact idsOf_gathered _ hfound hparts

/-! ## Identifiers that stand twice -/

/-- What is gathered has the identifiers of its elements. -/
theorem mem_of_mem_topIds {parts : Application} {k : ElementKind} {id : String}
    (h : Gathered Yields pos found parts) (hid : some id ∈ parts.topIds k) :
    id ∈ (ofKind k found).filterMap (·.get? "id") := by
  rw [List.mem_filterMap]
  cases k <;> try cases hid
  case resourceType =>
    obtain ⟨t, ht, heq⟩ := List.mem_map.1 hid
    obtain ⟨e, he, hread⟩ := exists_left_of_forall₂ h.resourceTypes ht
    exact ⟨e, he, by rw [id_of_readResourceType hread, heq]⟩
  case representation =>
    obtain ⟨item, hitem, heq⟩ := List.mem_map.1 hid
    obtain ⟨e, he, hread⟩ := exists_left_of_forall₂ h.representations hitem
    obtain ⟨id', hid', he'⟩ := id_of_readRepresentation hread
    exact ⟨e, he, by rw [he', ← hid', heq]⟩
  case param =>
    obtain ⟨item, hitem, heq⟩ := List.mem_map.1 hid
    obtain ⟨e, he, hread⟩ := exists_left_of_forall₂ h.params hitem
    obtain ⟨id', hid', he'⟩ := id_of_readParam hread
    exact ⟨e, he, by rw [he', ← hid', heq]⟩
  case method =>
    obtain ⟨m, hm, heq⟩ := List.mem_map.1 hid
    obtain ⟨e, he, hread⟩ := exists_left_of_forall₂ h.methods hm
    exact ⟨e, he, by rw [← (idsOf_readTopMethod hread [] []).1, heq]⟩

/-- A check fails for an identifier that is there already. -/
theorem fails_checkNew {kind : ElementKind} {id : Option String} {earlier : List (Option String)}
    {error : DocumentError} (h : Fails (checkNew pos kind id earlier) error) :
    ∃ i path, id = some i ∧ some i ∈ earlier ∧
      error = .duplicateId i (.topLevel kind.word) path := by
  obtain ⟨i, hi, rfl⟩ := fails_refuse h
  obtain ⟨hid, hearlier⟩ := Option.filter_eq_some_iff.1 hi
  exact ⟨i, _, hid, List.contains_iff_mem.1 hearlier, rfl⟩

/-- If an item is refused for its identifier, an earlier definition of the same kind has it. -/
theorem mem_topIds_of_addItem {app : Application} {k : ElementKind} {error : DocumentError}
    (h : Fails (addItem pos app (k, e)) error) (hwide : error.IsWide = true) :
    ∃ id path, error = .duplicateId id (.topLevel k.word) path ∧ e.get? "id" = some id ∧
      some id ∈ app.topIds k := by
  -- The readers do not give such errors.
  have hread : ∀ {α : Type} {Q : α → Prop} {read : Reading α} {f : α → Reading Application},
      Ensures read Q (Site.Flawed pos.base pos.strict ⟨.application, k, e⟩) →
      Fails (read >>= f) error →
        ∃ a, Yields read a ∧ Fails (f a) error := by
    intro α Q read f hensures h
    rcases h.bind with h | h
    · rw [(hensures.fails _ h).not_isWide] at hwide
      cases hwide
    · exact h
  have hcheck : ∀ {id : Option String} {earlier : List (Option String)} {f : Unit → Application},
      Fails (checkNew pos k id earlier >>= fun u => pure (f u)) error →
        ∃ i path, id = some i ∧ some i ∈ earlier ∧
          error = .duplicateId i (.topLevel k.word) path := by
    intro id earlier f h
    rcases h.bind with h | ⟨_, -, h⟩
    · exact fails_checkNew h
    · exact absurd h not_fails_pure
  cases k <;> try exact absurd h not_fails_pure
  case resourceType =>
    obtain ⟨t, ht, h⟩ := hread readResourceType_ensures h
    obtain ⟨i, path, hid, hmem, rfl⟩ := hcheck h
    exact ⟨i, path, rfl, by rw [id_of_readResourceType ht, hid], hmem⟩
  case representation =>
    obtain ⟨item, hitem, h⟩ := hread readRepresentation_ensures h
    obtain ⟨i, path, hid, hmem, rfl⟩ := hcheck h
    exact ⟨i, path, rfl, by rw [← hid, (yields_readRepresentation_id hitem).2 rfl], hmem⟩
  case param =>
    obtain ⟨item, hitem, h⟩ := hread readParam_ensures h
    obtain ⟨i, path, hid, hmem, rfl⟩ := hcheck h
    exact ⟨i, path, rfl, by rw [← hid, yields_readParam_id hitem], hmem⟩
  case method =>
    obtain ⟨m, hm, h⟩ := hread readTopMethod_ensures h
    obtain ⟨i, path, hid, hmem, rfl⟩ := hcheck h
    exact ⟨i, path, rfl, by rw [← hid, (idsOf_readTopMethod hm [] []).1], hmem⟩
  case grammars =>
    obtain ⟨hrefs, -, h⟩ := hread readGrammars_ensures h
    exact absurd h not_fails_pure
  case resources =>
    obtain ⟨g, -, h⟩ := hread readGroup_ensures h
    exact absurd h not_fails_pure

/-- The identifiers of the definitions of one kind that a document has itself are among those of the
document. -/
theorem topIds_sublist {content : List Xml.Node} {k : ElementKind}
    (hk : k ∈ [.resourceType, .representation, .param, .method]) :
    ((childrenOf k content).filterMap (·.get? "id")).Sublist (identifiersIn content) := by
  have hflat : ∀ (es : List Element) (f : Element → List String),
      (es.filterMap (·.get? "id")).Sublist (es.flatMap fun e => (e.get? "id").toList ++ f e) := by
    intro es f
    induction es with
    | nil => exact .slnil
    | cons e es ih =>
      have hcons : (e :: es).filterMap (·.get? "id") =
          (e.get? "id").toList ++ es.filterMap (·.get? "id") := by
        cases hid : e.get? "id" <;> simp [hid]
      rw [hcons, List.flatMap_cons]
      exact (List.sublist_append_left _ _).append ih
  simp only [List.mem_cons, List.not_mem_nil, or_false] at hk
  unfold identifiersIn
  rcases hk with rfl | rfl | rfl | rfl
  · refine (hflat _ fun e => inlineIdsIn e.content ++ resourceIdsIn e.content).trans ?_
    simp only [List.append_assoc]
    exact List.sublist_append_left _ _
  · simp only [List.append_assoc]
    exact (List.sublist_append_left _ _).trans (List.sublist_append_right _ _)
  · simp only [List.append_assoc]
    exact ((List.sublist_append_left _ _).trans (List.sublist_append_right _ _)).trans
      (List.sublist_append_right _ _)
  · exact ((hflat _ _).trans (List.sublist_append_right _ _)).trans (List.sublist_append_left _ _)

/-- A document is refused because of an identifier only if it stands twice. -/
theorem duplicate_of_readApplication {error : DocumentError}
    (h : Fails (readApplication base strict e.node) error) (hwide : error.IsWide = true) :
    ∃ id scope path, error = .duplicateId id scope path ∧
      List.Duplicate id (identifiersIn e.content) := by
  have isOpen : ¬(Site.top e).Closed := not_closed_of_kind (by simp [Site.top])
  simp only [Element.node, readApplication] at h
  split at h
  · rcases h.bind with h | ⟨_, hthrow, -⟩
    · rw [← h.throw] at hwide
      cases hwide
    · exact absurd hthrow not_yields_throw
  rcases h.bind with h | ⟨found, hfound, h⟩
  · rw [((items_ensures isOpen).fails _ h).not_isWide] at hwide
    cases hwide
  obtain ⟨before, ⟨k, e'⟩, after, c, rfl, ⟨parts, rfl, hparts⟩, hfails⟩ :=
    h.foldlM_keeps (fun before c => ∃ parts, c = Application.plus _ parts ∧
      Gathered Yields _ before parts) ⟨.nothing, (Application.plus_nothing _).symm, .nil⟩
      (by
        rintro before x _ c' ⟨parts, rfl, hparts⟩ hstep
        obtain ⟨more, rfl, hmore⟩ := gathered_of_addItem hstep
        exact ⟨parts.plus more, Application.plus_assoc _ _ _, hparts.append hmore⟩)
  obtain ⟨id, path, rfl, hid, hmem⟩ := mem_topIds_of_addItem hfails hwide
  refine ⟨id, _, path, rfl, ?_⟩
  have hkind : k ∈ [ElementKind.resourceType, .representation, .param, .method] := by
    cases k <;> first | decide | cases hmem
  have hearlier : id ∈ (ofKind k before).filterMap (·.get? "id") :=
    mem_of_mem_topIds hparts (by cases k <;> exact hmem)
  refine List.duplicate_iff_sublist.2 (List.Sublist.trans ?_ (topIds_sublist hkind))
  have hlater : (e' :: ofKind k after).filterMap (·.get? "id") =
      id :: (ofKind k after).filterMap (·.get? "id") :=
    List.filterMap_cons_some hid
  rw [← ofKind_of_yields hfound, ofKind_items_append, ofKind_cons_self,
    List.filterMap_append, hlater]
  exact (List.singleton_sublist.2 hearlier).append ((List.nil_sublist _).cons_cons id)

end Documents

end Reader

/-! ## The index -/

/-- The first repeated identifier of some entries is the one of the first entry that repeats one. -/
theorem firstRepeated_idsOf : ∀ (seen : List String) (entries : List Entry),
    ( repeatedEntry? seen entries).map (·.id) = firstRepeated seen (idsOf entries)
  | seen, [] => rfl
  | seen, e :: entries => by
    show (if seen.contains e.id then some e else repeatedEntry? (e.id :: seen) entries).map (·.id) =
      if seen.contains e.id then some e.id else firstRepeated (e.id :: seen) (idsOf entries)
    rw [← firstRepeated_idsOf (e.id :: seen) entries]
    split <;> rfl

/-- A description has no index only because an identifier stands twice. -/
theorem duplicate_of_ofApplication {app : Application} {error : DocumentError}
    (h : Index.ofApplication app = .error error) :
    ∃ id path, error = .duplicateId id .id path ∧ List.Duplicate id (idsOf app.entries) := by
  unfold Index.ofApplication at h
  split at h
  · cases h
  · rename_i entry hentry
    refine ⟨entry.id, entry.path, (Except.error.inj h).symm, ?_⟩
    have hrepeated : firstRepeated [] (idsOf app.entries) = some entry.id := by
      rw [← firstRepeated_idsOf, hentry]
      rfl
    exact (firstRepeated_eq_some hrepeated).resolve_left fun hseen => by cases hseen.1

/-- An identifier that stands twice is in the way of reading only if it does so in the document. -/
theorem duplicate_of_readDescription {base : String} {strict : Bool} {e : Element}
    {error : DocumentError} (h : Fails (readDescription base strict e.node) error)
    (hwide : error.IsWide = true) :
    ∃ id scope path, error = .duplicateId id scope path ∧
      List.Duplicate id (identifiersIn e.content) := by
  rcases h.bind with h | ⟨app, happ, h⟩
  · exact duplicate_of_readApplication h hwide
  · rcases h.bind with h | ⟨_, -, h⟩
    · obtain ⟨id, path, rfl, htwice⟩ := duplicate_of_ofApplication h.lift
      exact ⟨id, .id, path, rfl, idsOf_readApplication happ ▸ htwice⟩
    · exact absurd h not_fails_pure

/-- In a description that is read the names in each part differ, and so do the identifiers of the
document. The description has an index, with just the identifiers of the document, each with the
definition that declares it and the place where it stands. A document is refused for a name only if
this stands twice: an identifier in the document, or another name in an element. -/
theorem identifiers_checked (base : String) (strict : Bool) (e : Element) :
    (∀ app, Yields (readDescription base strict e.node) app →
      (∀ steps p, (Part.application app).at? steps = some p → p.Distinct) ∧
      (identifiersIn e.content).Nodup ∧
      (∀ s, (Site.top e).Below s → ¬s.Closed → s.Distinct) ∧
      ∃ index, Index.ofApplication app = .ok index ∧ idsOf index.entries = identifiersIn e.content ∧
        ∀ id d steps, app.Declares id d steps ↔
          ∃ entry, index.get? id = some entry ∧ entry.definition = d ∧ entry.steps = steps) ∧
    ∀ id scope path, Fails (readDescription base strict e.node) (.duplicateId id scope path) →
      List.Duplicate id (identifiersIn e.content) ∨
        ∃ s, (Site.top e).Below s ∧ ¬s.Closed ∧ s.Doubles scope id := by
  constructor
  · intro app h
    have hids : idsOf app.entries = identifiersIn e.content := by
      obtain ⟨app', happ, h⟩ := h.bind
      obtain ⟨_, -, h⟩ := h.bind
      obtain rfl := h.pure
      exact idsOf_readApplication happ
    have hunique : repeatedEntry? [] app.entries = none := (readDescription_sound_loose h).index
    obtain ⟨index, hindex, hentries, hget⟩ := index_exact hunique
    refine ⟨fun steps p hp => distinct_of_readDescription h hp, ?_, fun s hs => ?_,
      index, hindex, ?_, hget⟩
    · rw [← hids]
      exact (repeatedEntry?_eq_none.1 hunique).1
    · exact (readDescription_checks.yields app h s hs).2
    · rw [hentries, hids]
  · intro id scope path h
    rcases readDescription_checks.fails _ h with hflawed | hwide
    · rcases hflawed with hplain | ⟨s, hs, hflaw⟩
      · cases hplain
      · cases hflaw with
        | fault fault => cases fault
        | doubled isOpen doubles => exact .inr ⟨s, hs, isOpen, doubles⟩
    · obtain ⟨id', scope', path', heq, htwice⟩ := duplicate_of_readDescription h hwide
      obtain ⟨rfl, -, -⟩ := DocumentError.duplicateId.inj heq
      exact .inl htwice

/-- The root of a document with a method, a representation in what it answers, and a resource of an
identifier. -/
def depotRoot (id : String) : Element where
  tag := ⟨.plain "application", []⟩
  content := [
    .element ⟨.plain "method", [(.plain "id", "list"), (.plain "name", "GET")]⟩
      [.element ⟨.plain "response", []⟩
        [.element ⟨.plain "representation", [(.plain "id", "parcels")]⟩ []]],
    .element ⟨.plain "resources", []⟩ [.element ⟨.plain "resource", [(.plain "id", id)]⟩ []]]

theorem identifiers_checked_depot :
    (∃ app index, Yields (readDescription "" true (depotRoot "depot").node) app ∧
      Index.ofApplication app = .ok index ∧ idsOf index.entries = ["list", "parcels", "depot"]) ∧
    Fails (readDescription "" true (depotRoot "parcels").node)
      (.duplicateId "parcels" .id ["application", "resources", "resource[parcels]"]) ∧
    List.Duplicate "parcels" (identifiersIn (depotRoot "parcels").content) := by
  obtain ⟨app, t, happ⟩ :=
    exists_gives (x := readDescription "" true (depotRoot "depot").node) (s := [])
      (by decide +kernel)
  have hfails : Fails (readDescription "" true (depotRoot "parcels").node)
      (.duplicateId "parcels" .id ["application", "resources", "resource[parcels]"]) :=
    fails_of_errorOf? (s := []) (by decide +kernel)
  obtain ⟨-, -, -, index, hindex, hids, -⟩ :=
    (identifiers_checked "" true (depotRoot "depot")).1 app happ.yields
  refine ⟨⟨app, index, happ.yields, hindex, hids.trans (by decide +kernel)⟩, hfails, ?_⟩
  refine ((identifiers_checked "" true (depotRoot "parcels")).2 _ _ _ hfails).resolve_right ?_
  rintro ⟨s, -, -, hdoubles⟩
  cases hdoubles

end Wadl
