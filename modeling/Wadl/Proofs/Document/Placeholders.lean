import Wadl.Proofs.Document.Scopes

/-!
# Which descriptions are refused for their placeholders

Only the reader of resources finds undeclared placeholders (`Reader.Spares`). Which scopes are
around an element is read off the tree (`Reader.Opens`). A description is refused for a placeholder
only if a resource in it misses the placeholder (`Reader.missed_readDescription`), and one that is
read has no resource that misses one (`Reader.checked_of_opens`). A resource misses a placeholder,
too, if a reference around it declares it: the check does not look for those
(`placeholders_checked`).
-/

namespace Wadl

/-- A tag is the one of an element of a kind. -/
def ElementKind.IsTag (kind : ElementKind) (tag : Xml.Tag) : Prop :=
  tag.name.label = kind.word ∧ tag.name.isWadl = true

/-- The content of an element; there is none in another piece of the tree. -/
def Xml.Node.inside : Xml.Node → List Xml.Node
  | .element _ content => content
  | _ => []

theorem ElementKind.ofWord?_eq_some {word : String} {k : ElementKind} :
    ElementKind.ofWord? word = some k ↔ word = k.word := by
  constructor
  · intro h
    have hk : k.word = word := by simpa using List.find?_some h
    exact hk.symm
  · rintro rfl
    exact ofWord?_word k

namespace Reader

/-! ## Readers that find no undeclared placeholder -/

/-- A reader does the same whatever was noticed before, and finds no undeclared placeholder. -/
structure Spares {α : Type} (x : Reading α) : Prop where
  same : ∀ s s', (Id.run (x.run.run s)).1 = (Id.run (x.run.run s')).1
  unfailing : ∀ name path, ¬Fails x (.malformed (.undeclaredPlaceholder name) path)

section Spares

variable {α β : Type} {x : Reading α} {pos : Position}

/-- A reading that spares placeholders yields one value at most. -/
theorem Spares.yields_unique {a b : α} (h : Spares x) (ha : Yields x a) (hb : Yields x b) :
    a = b := by
  obtain ⟨s, t, ha⟩ := ha
  obtain ⟨s', t', hb⟩ := hb
  have hsame := h.same s s'
  rw [ha, hb] at hsame
  exact Except.ok.inj hsame

theorem Spares.pure (a : α) : Spares (Pure.pure a : Reading α) :=
  ⟨fun _ _ => rfl, fun _ _ => not_fails_pure⟩

theorem Spares.throw {error : DocumentError}
    (h : ∀ name path, error ≠ .malformed (.undeclaredPlaceholder name) path) :
    Spares (MonadExcept.throw error : Reading α) :=
  ⟨fun _ _ => rfl, fun name path hfails => h name path hfails.throw⟩

theorem Spares.fail {fault : Malformation} (h : ∀ name, fault ≠ .undeclaredPlaceholder name) :
    Spares (Reader.fail pos fault : Reading α) :=
  .throw fun name _ herror => h name (DocumentError.malformed.inj herror).1

theorem Spares.notice (n : Notice) : Spares (Wadl.notice n) :=
  ⟨fun _ _ => rfl, fun _ _ => not_fails_modify⟩

/-- Steps in a row spare placeholders if each does; the lemmas below go through all that is read
inside of a resource. -/
theorem Spares.bind {f : α → Reading β} (hx : Spares x) (hf : ∀ a, Spares (f a)) :
    Spares (x >>= f) := by
  constructor
  · intro s s'
    have hsame := hx.same s s'
    rw [run_bind, run_bind]
    rcases hs : Id.run (x.run.run s) with ⟨e | a, t⟩ <;>
      rcases hs' : Id.run (x.run.run s') with ⟨e' | a', t'⟩ <;>
      rw [hs, hs'] at hsame
    · obtain rfl := Except.error.inj hsame
      rfl
    · cases hsame
    · cases hsame
    · obtain rfl := Except.ok.inj hsame
      exact (hf a).same t t'
  · intro name path h
    rcases h.bind with h | ⟨a, -, h⟩
    · exact hx.unfailing name path h
    · exact (hf a).unfailing name path h

theorem Spares.map {f : α → β} (hx : Spares x) : Spares (f <$> x) := by
  rw [← bind_pure_comp]
  exact hx.bind fun _ => .pure _

theorem Spares.mapM {f : α → Reading β} (hf : ∀ a, Spares (f a)) :
    ∀ {xs : List α}, Spares (xs.mapM f)
  | [] => by
    rw [List.mapM_nil]
    exact .pure _
  | x :: xs => by
    rw [List.mapM_cons]
    exact (hf x).bind fun _ => (Spares.mapM hf).bind fun _ => .pure _

/-- Sorting out the children of an element fails for other reasons only. -/
theorem items_spares {parent : ElementKind} :
    ∀ content : List Xml.Node, Spares (items pos parent content)
  | [] => .pure _
  | .element tag inside :: rest => by
    have hitem : ∀ kind : ElementKind,
        Spares (do return (kind, Element.mk tag inside) :: (← items pos parent rest)) := fun _ =>
      .bind (items_spares rest) fun _ => .pure _
    simp only [items]
    split
    · exact hitem _
    · split
      · exact .bind (.notice _) fun _ => items_spares rest
      · split
        · split
          · exact hitem _
          · exact .fail (by simp)
        · split
          · exact .fail (by simp)
          · exact .bind (.notice _) fun _ => items_spares rest
  | .text _ :: rest => by simpa only [items] using items_spares rest
  | .comment _ :: rest => by simpa only [items] using items_spares rest
  | .instruction _ :: rest => by simpa only [items] using items_spares rest

theorem required_spares {e : Element} {kind : ElementKind} {attr : String} :
    Spares (required pos e kind attr) := by
  unfold required
  split
  · exact .pure _
  · exact .throw (by simp)

theorem flag_spares {e : Element} {attr : String} : Spares (flag pos e attr) := by
  unfold flag
  split
  · exact .pure _
  · split
    · exact .pure _
    · split
      · exact .pure _
      · exact .fail (by simp)

theorem reference_spares {kind : DefinitionKind} {href : String} :
    Spares (reference pos kind href) := by
  unfold reference
  split
  · exact .pure _
  · exact .throw (by simp)

theorem refuse_spares {found : Option α} {error : α → DocumentError}
    (h : ∀ a name path, error a ≠ .malformed (.undeclaredPlaceholder name) path) :
    Spares (refuse found error) := by
  unfold refuse
  split
  · exact .throw (h _)
  · exact .pure _

theorem requireId_spares {location kind : ElementKind} {e : Element} :
    Spares (requireId pos location e kind) := by
  unfold requireId
  split
  · exact required_spares.map
  · exact .pure _

theorem readStyle_spares {e : Element} {location : ElementKind} :
    Spares (readStyle pos e location) := by
  unfold readStyle
  split
  · exact .pure _
  · split
    · exact .fail (by simp)
    · split
      · split
        · exact .bind (.fail (by simp)) fun _ => .bind (.notice _) fun _ => .pure _
        · exact .bind (.notice _) fun _ => .pure _
      · exact .pure _

theorem readOption_spares {e : Element} : Spares (readOption pos e) :=
  required_spares.bind fun _ => (items_spares _).bind fun _ => .pure _

theorem readTarget_spares (href : Option String) : Spares (readTarget pos href) := by
  unfold readTarget
  split
  · split
    · exact .pure _
    · exact reference_spares.map
  · exact .pure _

theorem readLink_spares {e : Element} : Spares (readLink pos e) :=
  (readTarget_spares _).bind fun _ => (items_spares _).bind fun _ => .pure _

theorem readParamBody_spares {location : ElementKind} {e : Element} :
    Spares (readParamBody pos location e) :=
  required_spares.bind fun _ => readStyle_spares.bind fun _ => (items_spares _).bind fun _ =>
    (Spares.mapM fun _ => readOption_spares).bind fun _ => (refuse_spares (by simp)).bind fun _ =>
    flag_spares.bind fun _ => flag_spares.bind fun _ =>
      (Spares.mapM fun _ => readLink_spares).bind fun _ =>
    .pure _

/-- Reading a param never reports a placeholder; nor does reading any other part below, except
resources. -/
theorem readParam_spares {location : ElementKind} {e : Element} :
    Spares (readParam pos location e) := by
  unfold readParam
  refine requireId_spares.bind fun _ => ?_
  split
  · exact reference_spares.bind fun _ => .pure _
  · exact readParamBody_spares.bind fun _ => .pure _

theorem readParams_spares {location : ElementKind} {found : List (ElementKind × Element)} :
    Spares (readParams pos location found) :=
  (Spares.mapM fun _ => readParam_spares).bind fun _ =>
    (refuse_spares (by simp)).bind fun _ => .pure _

theorem readRepresentation_spares {location : ElementKind} {e : Element} :
    Spares (readRepresentation pos location e) := by
  unfold readRepresentation
  refine requireId_spares.bind fun _ => ?_
  split
  · exact reference_spares.bind fun _ => .pure _
  · refine Spares.bind ?_ fun _ => .pure _
    exact (items_spares _).bind fun _ => readParams_spares.bind fun _ => .pure _

theorem readRepresentations_spares {location : ElementKind} {found : List (ElementKind × Element)} :
    Spares (readRepresentations pos location found) :=
  Spares.mapM fun _ => readRepresentation_spares

theorem readRequest_spares {e : Element} : Spares (readRequest pos e) :=
  (items_spares _).bind fun _ => readParams_spares.bind fun _ =>
    readRepresentations_spares.bind fun _ => .pure _

theorem readStatus_spares {status : String} : Spares (readStatus pos status) := by
  unfold readStatus
  split
  · exact .pure _
  · exact .fail (by simp)

theorem readResponse_spares {e : Element} : Spares (readResponse pos e) :=
  readStatus_spares.bind fun _ => (items_spares _).bind fun _ => readParams_spares.bind fun _ =>
    readRepresentations_spares.bind fun _ => .pure _

theorem readOnlyRequest_spares (es : List Element) : Spares (readOnlyRequest pos es) := by
  unfold readOnlyRequest
  split
  · exact .pure _
  · exact readRequest_spares.map
  · exact .fail (by simp)

theorem readMethodBody_spares {e : Element} : Spares (readMethodBody pos e) :=
  required_spares.bind fun _ => (items_spares _).bind fun _ =>
    (readOnlyRequest_spares _).bind fun _ =>
    (Spares.mapM fun _ => readResponse_spares).bind fun _ => .pure _

theorem readMethod_spares {e : Element} : Spares (readMethod pos e) := by
  unfold readMethod
  simp only
  split
  · exact reference_spares.bind fun _ => .pure _
  · exact readMethodBody_spares.bind fun _ => .pure _

theorem readTopMethod_spares {e : Element} : Spares (readTopMethod pos e) := by
  unfold readTopMethod
  exact requireId_spares.bind fun _ => readMethodBody_spares

theorem readMethods_spares {found : List (ElementKind × Element)} :
    Spares (readMethods pos found) :=
  (Spares.mapM fun _ => readMethod_spares).bind fun _ =>
    (refuse_spares (by simp)).bind fun _ => .pure _

theorem checkNew_spares {kind : ElementKind} {id : Option String} {earlier : List (Option String)} :
    Spares (checkNew pos kind id earlier) := refuse_spares (by simp)

theorem readGrammars_spares {e : Element} : Spares (readGrammars pos e) :=
  (items_spares _).bind fun _ => Spares.mapM fun _ => required_spares

end Spares

/-! ## Elements and their scopes -/

/-- An element as a piece of the tree. -/
def Element.node (e : Element) : Xml.Node := .element e.tag e.content

/-- The two ways to ask for the tag of a resource agree. -/
theorem isResourceTag_iff_isTag {tag : Xml.Tag} :
    isResourceTag tag = true ↔ ElementKind.resource.IsTag tag := by
  simp [isResourceTag, ElementKind.IsTag]

/-- An item of another kind than documentation is told by the tag. -/
theorem itemOf?_eq_some {n : Xml.Node} {kind : ElementKind} {e : Element} (hkind : kind ≠ .doc) :
    itemOf? n = some (kind, e) ↔ e.node = n ∧ kind.IsTag e.tag := by
  constructor
  · intro h
    obtain rfl := node_of_itemOf? h
    refine ⟨rfl, ?_⟩
    rw [itemOf?] at h
    split at h
    · exact absurd (Prod.mk.inj (Option.some.inj h)).1.symm hkind
    · split at h
      · cases h
      · rename_i hwadl
        obtain ⟨k, hk, heq⟩ := Option.map_eq_some_iff.1 h
        obtain rfl := (Prod.mk.inj heq).1
        exact ⟨ElementKind.ofWord?_eq_some.1 hk, by simpa using hwadl⟩
  · rintro ⟨rfl, hlabel, hwadl⟩
    have hword : ElementKind.ofWord? e.tag.name.label = some kind :=
      ElementKind.ofWord?_eq_some.2 hlabel
    have hdoc : e.tag.name.label ≠ ElementKind.doc.word := by
      intro hdoc
      rw [hdoc, ElementKind.ofWord?_word] at hword
      exact hkind (Option.some.inj hword).symm
    simp [Element.node, itemOf?, hdoc, hwadl, hword]

/-- The items found are the children of their kinds. -/
theorem mem_items_iff {pos : Position} {parent kind : ElementKind} {e : Element}
    {content : List Xml.Node} {found : List (ElementKind × Element)} (hkind : kind ≠ .doc)
    (h : Yields (items pos parent content) found) :
    (kind, e) ∈ found ↔ e.node ∈ content ∧ kind.IsTag e.tag := by
  rw [← filterMap_of_items h, List.mem_filterMap]
  simp only [itemOf?_eq_some hkind]
  exact ⟨fun ⟨n, hn, hnode, htag⟩ => ⟨hnode ▸ hn, htag⟩, fun ⟨hn, htag⟩ => ⟨_, hn, rfl, htag⟩⟩

/-- The position inside a resource. -/
def insideResource (pos : Position) (e : Element) : Position :=
  pos.enter (labelled "resource" (firstNonEmpty [e.get? "id", e.get? "path"]))

/-- A scope is that of an element of a kind, as it is read with a position inside the element. -/
def IsScopeOf (s : Scope) (kind : ElementKind) (inside : Position) (e : Element) : Prop :=
  ∃ found, Yields (items inside kind e.content) found ∧
    Yields (readParams inside kind found) s.params ∧
    Yields (readMethods inside found) s.methods ∧
    s.path = if kind = .resource then e.get? "path" else none

/-- A resource has one scope at most. -/
theorem IsScopeOf.unique {s s' : Scope} {kind : ElementKind} {inside : Position} {e : Element}
    (h : IsScopeOf s kind inside e) (h' : IsScopeOf s' kind inside e) : s = s' := by
  obtain ⟨path, params, methods⟩ := s
  obtain ⟨path', params', methods'⟩ := s'
  obtain ⟨found, hfound, hparams, hmethods, hpath⟩ := h
  obtain ⟨found', hfound', hparams', hmethods', hpath'⟩ := h'
  obtain rfl := (items_spares _).yields_unique hfound hfound'
  obtain rfl : params = params' := readParams_spares.yields_unique hparams hparams'
  obtain rfl : methods = methods' := readMethods_spares.yields_unique hmethods hmethods'
  obtain rfl : path = path' := hpath.trans hpath'.symm
  rfl

/-- An element of the content of a description is a resource type or a resource, with the position
inside it, its scope and those of what is around it, the nearest first. -/
inductive Opens (top : Position) (content : List Xml.Node) : Position → Element → List Scope → Prop
  | type {e : Element} {id : String} {s : Scope} (within : e.node ∈ content)
      (tag : ElementKind.resourceType.IsTag e.tag) (hasId : e.get? "id" = some id)
      (scope : IsScopeOf s .resourceType (top.enter (labelled "resource_type" id)) e) :
      Opens top content (top.enter (labelled "resource_type" id)) e [s]
  | outermost {group e : Element} {s : Scope} (groupWithin : group.node ∈ content)
      (groupTag : ElementKind.resources.IsTag group.tag) (within : e.node ∈ group.content)
      (tag : ElementKind.resource.IsTag e.tag)
      (scope : IsScopeOf s .resource (insideResource (top.enter "resources") e) e) :
      Opens top content (insideResource (top.enter "resources") e) e [s]
  | inner {pos : Position} {outer e : Element} {s : Scope} {around : List Scope}
      (opens : Opens top content pos outer around) (within : e.node ∈ outer.content)
      (tag : ElementKind.resource.IsTag e.tag)
      (scope : IsScopeOf s .resource (insideResource pos e) e) :
      Opens top content (insideResource pos e) e (s :: around)

/-! ## Where an undeclared placeholder is found -/

section Missed

variable {top : Position} {content : List Xml.Node} {name : String} {path : List String}

/-- An element at a path misses a placeholder. -/
def Missed (top : Position) (content : List Xml.Node) (name : String) (path : List String) : Prop :=
  ∃ pos e s around, Opens top content pos e (s :: around) ∧ pos.path = path ∧ s.Misses around name

/-- A refusal fails for what was found. -/
theorem fails_refuse {α : Type} {found : Option α} {error : α → DocumentError} {e : DocumentError}
    (h : Fails (refuse found error) e) : ∃ a, found = some a ∧ error a = e := by
  unfold refuse at h
  split at h
  · exact ⟨_, rfl, h.throw⟩
  · exact absurd h not_fails_pure

/-- A resource is refused because it misses a placeholder, or because of a resource below it. -/
theorem missed_readResource {pos : Position} {inherited : List String} {e : Element}
    {below : Position → List String → Reading (List Resource)} {around : List Scope}
    (hopens : ∀ s, IsScopeOf s .resource (insideResource pos e) e →
      Opens top content (insideResource pos e) e (s :: around))
    (hinherited : ∀ s ∈ around, templateNames s.params ⊆ inherited)
    (hbelow : ∀ s declared, IsScopeOf s .resource (insideResource pos e) e →
      (∀ s' ∈ s :: around, templateNames s'.params ⊆ declared) →
      Fails (below (insideResource pos e) declared)
        (.malformed (.undeclaredPlaceholder name) path) → Missed top content name path)
    (h : Fails (readResource pos inherited e below)
      (.malformed (.undeclaredPlaceholder name) path)) :
    Missed top content name path := by
  simp only [readResource] at h
  rcases h.bind with h | ⟨found, hfound, h⟩
  · exact absurd h ((items_spares _).unfailing _ _)
  rcases h.bind with h | ⟨params, hparams, h⟩
  · exact absurd h (readParams_spares.unfailing _ _)
  rcases h.bind with h | ⟨methods, hmethods, h⟩
  · exact absurd h (readMethods_spares.unfailing _ _)
  rcases h.bind with h | ⟨types, -, h⟩
  · exact absurd h ((Spares.mapM fun _ => reference_spares).unfailing _ _)
  let s : Scope := ⟨e.get? "path", params, methods⟩
  have hs : IsScopeOf s .resource (insideResource pos e) e :=
    ⟨found, hfound, hparams, hmethods, rfl⟩
  have hdeclared : ∀ s' ∈ s :: around,
      templateNames s'.params ⊆ inherited ++ templateNames params :=
    List.forall_mem_cons.2 ⟨List.subset_append_right _ _,
      fun s' hs' => List.subset_append_of_subset_left _ (hinherited s' hs')⟩
  rcases h.bind with h | ⟨resources, -, h⟩
  · exact hbelow s _ hs hdeclared h
  rcases h.bind with h | ⟨_, -, h⟩
  · obtain ⟨name', hmissed, herror⟩ := fails_refuse h
    obtain ⟨hfault, hpath⟩ := DocumentError.malformed.inj herror
    obtain rfl : name' = name := Malformation.undeclaredPlaceholder.inj hfault
    exact ⟨_, e, s, around, hopens s hs, hpath, missed_of_undeclaredPlaceholder? hdeclared hmissed⟩
  · exact absurd h not_fails_pure

mutual

/-- If reading a resource reports a placeholder, it is one that its scope and those around leave
undeclared; by induction on the nodes. -/
theorem missed_readIfResource {around : List Scope} :
    ∀ (n : Xml.Node) {pos : Position} {inherited : List String},
    (∀ e : Element, e.node = n → ElementKind.resource.IsTag e.tag →
      ∀ s, IsScopeOf s .resource (insideResource pos e) e →
        Opens top content (insideResource pos e) e (s :: around)) →
    (∀ s ∈ around, templateNames s.params ⊆ inherited) →
    Fails (readIfResource pos inherited n) (.malformed (.undeclaredPlaceholder name) path) →
      Missed top content name path
  | .element tag inside, pos, inherited, hopens, hinherited, h => by
    rw [readIfResource] at h
    split at h
    · rename_i htag
      have hopens := hopens ⟨tag, inside⟩ rfl (isResourceTag_iff_isTag.1 htag)
      refine missed_readResource hopens hinherited (fun s _ hs hdeclared hfails => ?_) h.map
      refine missed_readResources inside (fun e he hetag s' hs' => ?_) hdeclared hfails
      exact .inner (hopens s hs) he hetag hs'
    · exact absurd h not_fails_pure
  | .text _, _, _, _, _, h => absurd h not_fails_pure
  | .comment _, _, _, _, _, h => absurd h not_fails_pure
  | .instruction _, _, _, _, _, h => absurd h not_fails_pure

/-- Some resources, all with the same scopes around them, are refused because one in them misses a
placeholder. -/
theorem missed_readResources {around : List Scope} : ∀ (inside : List Xml.Node) {pos : Position}
    {inherited : List String},
    (∀ e : Element, e.node ∈ inside → ElementKind.resource.IsTag e.tag →
      ∀ s, IsScopeOf s .resource (insideResource pos e) e →
        Opens top content (insideResource pos e) e (s :: around)) →
    (∀ s ∈ around, templateNames s.params ⊆ inherited) →
    Fails (readResources pos inherited inside) (.malformed (.undeclaredPlaceholder name) path) →
      Missed top content name path
  | [], _, _, _, _, h => by
    rw [readResources] at h
    exact absurd h not_fails_pure
  | n :: rest, pos, inherited, hopens, hinherited, h => by
    rw [readResources] at h
    rcases h.bind with h | ⟨first, -, h⟩
    · exact missed_readIfResource n (fun e he => hopens e (he ▸ List.mem_cons_self)) hinherited h
    rcases h.bind with h | ⟨more, -, h⟩
    · exact missed_readResources rest (fun e he => hopens e (List.mem_cons_of_mem n he))
        hinherited h
    · exact absurd h not_fails_pure

end

/-- Within a resource type, it is one that the type leaves undeclared. -/
theorem missed_readResourceType {e : Element} (he : e.node ∈ content)
    (htag : ElementKind.resourceType.IsTag e.tag)
    (h : Fails (readResourceType top e) (.malformed (.undeclaredPlaceholder name) path)) :
    Missed top content name path := by
  simp only [readResourceType] at h
  rcases h.bind with h | ⟨id, hid, h⟩
  · exact absurd h (required_spares.unfailing _ _)
  rcases h.bind with h | ⟨found, hfound, h⟩
  · exact absurd h ((items_spares _).unfailing _ _)
  rcases h.bind with h | ⟨params, hparams, h⟩
  · exact absurd h (readParams_spares.unfailing _ _)
  rcases h.bind with h | ⟨methods, hmethods, h⟩
  · exact absurd h (readMethods_spares.unfailing _ _)
  let s : Scope := ⟨none, params, methods⟩
  have hs : IsScopeOf s .resourceType (top.enter (labelled "resource_type" id)) e :=
    ⟨found, hfound, hparams, hmethods, rfl⟩
  rcases h.bind with h | ⟨resources, -, h⟩
  · have hinherited : ∀ s' ∈ [s], templateNames s'.params ⊆ templateNames params :=
      List.forall_mem_singleton.2 (List.Subset.refl _)
    refine missed_readResources e.content (fun e' he' htag' s' hs' => ?_) hinherited h
    exact .inner (.type he htag (yields_required hid) hs) he' htag' hs'
  · exact absurd h not_fails_pure

theorem missed_readGroup {e : Element} (he : e.node ∈ content)
    (htag : ElementKind.resources.IsTag e.tag)
    (h : Fails (readGroup top e) (.malformed (.undeclaredPlaceholder name) path)) :
    Missed top content name path := by
  simp only [readGroup] at h
  rcases h.bind with h | ⟨_, -, h⟩
  · exact absurd h ((items_spares _).unfailing _ _)
  rcases h.bind with h | ⟨resources, -, h⟩
  · have hinherited : ∀ s ∈ ([] : List Scope), templateNames s.params ⊆ [] := by simp
    refine missed_readResources e.content (fun e' he' htag' s hs => ?_) hinherited h
    exact .outermost he htag he' htag' hs
  · exact absurd h not_fails_pure

/-- Whichever item reports a placeholder, it is one that is left undeclared. -/
theorem missed_addItem {app : Application} {kind : ElementKind} {e : Element}
    (hitem : kind ≠ .doc → e.node ∈ content ∧ kind.IsTag e.tag)
    (h : Fails (addItem top app (kind, e)) (.malformed (.undeclaredPlaceholder name) path)) :
    Missed top content name path := by
  unfold addItem at h
  split at h
  · rename_i heq
    obtain ⟨rfl, rfl⟩ := Prod.mk.inj heq
    rcases h.bind with h | ⟨t, -, h⟩
    · obtain ⟨hwithin, htag⟩ := hitem (by decide)
      exact missed_readResourceType hwithin htag h
    · exact absurd h ((checkNew_spares.bind fun _ => .pure _).unfailing _ _)
  · exact absurd h
      ((readRepresentation_spares.bind fun _ => checkNew_spares.bind fun _ =>
        .pure _).unfailing _ _)
  · exact absurd h
      ((readParam_spares.bind fun _ => checkNew_spares.bind fun _ => .pure _).unfailing _ _)
  · exact absurd h
      ((readTopMethod_spares.bind fun _ => checkNew_spares.bind fun _ => .pure _).unfailing _ _)
  · exact absurd h ((readGrammars_spares.bind fun _ => .pure _).unfailing _ _)
  · rename_i heq
    obtain ⟨rfl, rfl⟩ := Prod.mk.inj heq
    rcases h.bind with h | ⟨g, -, h⟩
    · obtain ⟨hwithin, htag⟩ := hitem (by decide)
      exact missed_readGroup hwithin htag h
    · exact absurd h not_fails_pure
  · exact absurd h not_fails_pure

end Missed

/-- The position at the root of a description. -/
def topPosition (base : String) (strict : Bool) : Position := ⟨base, strict, ["application"]⟩

/-- A description is refused for an undeclared placeholder because a resource in it misses it. -/
theorem missed_readDescription {base : String} {strict : Bool} {root : Xml.Node} {name : String}
    {path : List String}
    (h : Fails (readDescription base strict root) (.malformed (.undeclaredPlaceholder name) path)) :
    Missed (topPosition base strict) root.inside name path := by
  unfold readDescription at h
  rcases h.bind with h | ⟨app, -, h⟩
  · cases root with
    | element tag inside =>
      simp only [readApplication] at h
      split at h
      · rcases h.bind with h | ⟨_, hthrow, -⟩
        · simpa using h.throw
        · exact absurd hthrow not_yields_throw
      · rcases h.bind with h | ⟨found, hfound, h⟩
        · exact absurd h ((items_spares _).unfailing _ _)
        · obtain ⟨⟨kind, e⟩, hitem, app, h⟩ := h.foldlM
          exact missed_addItem (fun hkind => (mem_items_iff hkind hfound).1 hitem) h
    | text _ => simpa using Fails.throw h
    | comment _ => simpa using Fails.throw h
    | instruction _ => simpa using Fails.throw h
  · rcases h.bind with h | ⟨_, -, h⟩
    · have hindex := h.lift
      unfold Index.ofApplication at hindex
      split at hindex
      · cases hindex
      · simp at hindex
    · exact absurd h not_fails_pure

/-! ## What is checked in a description that is read -/

/-- Reading resources in a row reads each of them. -/
theorem yields_readResources {pos : Position} {inherited : List String} {e : Element}
    (htag : ElementKind.resource.IsTag e.tag) :
    ∀ {content : List Xml.Node} {rs : List Resource},
      Yields (readResources pos inherited content) rs → e.node ∈ content →
        ∃ r, Yields (readResource pos inherited e fun inside declared =>
          readResources inside declared e.content) r
  | [], _, _, he => by cases he
  | n :: rest, rs, h, he => by
    rw [readResources] at h
    obtain ⟨first, hfirst, h⟩ := h.bind
    obtain ⟨more, hmore, h⟩ := h.bind
    rcases List.mem_cons.1 he with rfl | he
    · rw [Element.node, readIfResource, if_pos (isResourceTag_iff_isTag.2 htag)] at hfirst
      obtain ⟨r, hr, -⟩ := hfirst.map
      exact ⟨r, hr⟩
    · exact yields_readResources htag hmore he

/-- The check of a resource passes, and the resources below it are read with the names it declares,
too. -/
theorem checked_readResource {pos : Position} {inherited : List String} {e : Element} {s : Scope}
    {below : Position → List String → Reading (List Resource)} {r : Resource}
    (hs : IsScopeOf s .resource (insideResource pos e) e)
    (h : Yields (readResource pos inherited e below) r) :
    undeclaredPlaceholder? (inherited ++ templateNames s.params) s.path s.params s.methods = none ∧
      ∃ rs, Yields (below (insideResource pos e) (inherited ++ templateNames s.params)) rs := by
  simp only [readResource] at h
  obtain ⟨found, hfound, h⟩ := h.bind
  obtain ⟨params, hparams, h⟩ := h.bind
  obtain ⟨methods, hmethods, h⟩ := h.bind
  obtain ⟨types, -, h⟩ := h.bind
  obtain ⟨resources, hresources, h⟩ := h.bind
  obtain ⟨_, hchecked, -⟩ := h.bind
  obtain rfl : s = ⟨e.get? "path", params, methods⟩ :=
    hs.unique ⟨found, hfound, hparams, hmethods, rfl⟩
  exact ⟨yields_refuse hchecked, resources, hresources⟩

/-- The resources below a resource type are read with the names it declares. -/
theorem checked_readResourceType {e : Element} {s : Scope} {top : Position}
    {id : String} {t : ResourceType} (hid : e.get? "id" = some id)
    (hs : IsScopeOf s .resourceType (top.enter (labelled "resource_type" id)) e)
    (h : Yields (readResourceType top e) t) : s.path = none ∧ ∃ rs,
      Yields (readResources (top.enter (labelled "resource_type" id)) (templateNames s.params)
        e.content) rs := by
  simp only [readResourceType] at h
  obtain ⟨id', hid', h⟩ := h.bind
  obtain rfl := Option.some.inj (hid.symm.trans (yields_required hid'))
  obtain ⟨found, hfound, h⟩ := h.bind
  obtain ⟨params, hparams, h⟩ := h.bind
  obtain ⟨methods, hmethods, h⟩ := h.bind
  obtain ⟨resources, hresources, -⟩ := h.bind
  obtain rfl : s = ⟨none, params, methods⟩ := hs.unique ⟨found, hfound, hparams, hmethods, rfl⟩
  exact ⟨rfl, resources, hresources⟩

/-- In a description that is read, each item of the root was read. -/
theorem yields_addItem {base : String} {strict : Bool} {root : Xml.Node} {app : Application}
    (h : Yields (readDescription base strict root) app) {kind : ElementKind} {e : Element}
    (hkind : kind ≠ .doc) (he : e.node ∈ root.inside) (htag : kind.IsTag e.tag) :
    ∃ before after, Yields (addItem (topPosition base strict) before (kind, e)) after := by
  obtain ⟨app', happ', -⟩ := h.bind
  cases root with
  | element tag inside =>
    simp only [readApplication] at happ'
    split at happ'
    · obtain ⟨_, hthrow, -⟩ := happ'.bind
      exact absurd hthrow not_yields_throw
    · obtain ⟨found, hfound, happ'⟩ := happ'.bind
      exact happ'.mem_foldlM ((mem_items_iff hkind hfound).2 ⟨he, htag⟩)
  | text _ => cases he
  | comment _ => cases he
  | instruction _ => cases he

/-- The check of an element passes with names that are declared in its scope or around it, and with
them the resources below it are read. -/
def Checked (pos : Position) (e : Element) (scopes : List Scope) : Prop :=
  ∃ declared,
    (∀ name ∈ declared, ∃ s ∈ scopes, name ∈ templateNames s.params) ∧
      (∀ s ∈ scopes.head?, undeclaredPlaceholder? declared s.path s.params s.methods = none) ∧
        ∃ rs, Yields (readResources pos declared e.content) rs

/-- In a description that is read, the check of each element passes. -/
theorem checked_of_opens {base : String} {strict : Bool} {root : Xml.Node} {app : Application}
    (h : Yields (readDescription base strict root) app) {pos : Position} {e : Element}
    {scopes : List Scope} (hopens : Opens (topPosition base strict) root.inside pos e scopes) :
    Checked pos e scopes := by
  induction hopens with
  | @type e id s within tag hasId scope =>
    obtain ⟨before, after, hadd⟩ := yields_addItem h (by decide) within tag
    obtain ⟨t, ht, -⟩ := hadd.bind
    obtain ⟨hpath, rs, hrs⟩ := checked_readResourceType hasId scope ht
    refine ⟨_, fun name hname => ⟨s, List.mem_cons_self, hname⟩, ?_, rs, hrs⟩
    rintro _ ⟨⟩
    rw [hpath]
    exact undeclaredPlaceholder?_of_no_path _ _ _
  | outermost groupWithin groupTag within tag scope =>
    obtain ⟨before, after, hadd⟩ := yields_addItem h (by decide) groupWithin groupTag
    obtain ⟨g, hg, -⟩ := hadd.bind
    simp only [readGroup] at hg
    obtain ⟨_, -, hg⟩ := hg.bind
    obtain ⟨resources, hresources, -⟩ := hg.bind
    obtain ⟨r, hr⟩ := yields_readResources tag hresources within
    obtain ⟨hchecked, rs, hrs⟩ := checked_readResource scope hr
    exact ⟨_, fun name hname => ⟨_, List.mem_cons_self, hname⟩, by simpa using hchecked, rs, hrs⟩
  | inner opens within tag scope ih =>
    obtain ⟨declared, hdeclared, -, resources, hresources⟩ := ih
    obtain ⟨r, hr⟩ := yields_readResources tag hresources within
    obtain ⟨hchecked, rs, hrs⟩ := checked_readResource scope hr
    refine ⟨_, fun name hname => ?_, by simpa using hchecked, rs, hrs⟩
    rcases List.mem_append.1 hname with hname | hname
    · obtain ⟨s', hs', hname⟩ := hdeclared name hname
      exact ⟨s', List.mem_cons_of_mem _ hs', hname⟩
    · exact ⟨_, List.mem_cons_self, hname⟩

end Reader

/-- A description is refused for a placeholder only if a resource has it of which the references are
all followed, and if nothing declares it but, perhaps, a param that a reference around the resource
names. In a description that is read each placeholder is declared, where the references of its
resource are all followed. -/
theorem placeholders_checked (base : String) (strict : Bool) (root : Xml.Node) :
    (∀ name path, Fails (readDescription base strict root)
      (.malformed (.undeclaredPlaceholder name) path) →
      ∃ pos e s around,
        Reader.Opens (Reader.topPosition base strict) root.inside pos e (s :: around) ∧
        pos.path = path ∧ name ∈ s.placeholders ∧ s.IsKnown ∧
          ∀ μ, s.Declares μ around name → ∃ s' ∈ around, ∃ ref id p,
            .ref ref id ∈ s'.params ∧ Meaning.param? μ ref = some p ∧
            p.style = .template ∧ p.name = name) ∧
      ∀ app, Yields (readDescription base strict root) app →
        ∀ pos e s around,
          Reader.Opens (Reader.topPosition base strict) root.inside pos e (s :: around) →
          s.IsKnown → ∀ name ∈ s.placeholders, ∀ μ, s.Declares μ around name := by
  constructor
  · intro name path h
    obtain ⟨pos, e, s, around, hopens, hpath, hmissed⟩ := Reader.missed_readDescription h
    exact ⟨pos, e, s, around, hopens, hpath, hmissed.placeholder, hmissed.known,
      fun μ hdeclares => hmissed.exists_ref hdeclares⟩
  · intro app h pos e s around hopens hknown name hname μ
    obtain ⟨declared, hdeclared, hchecked, -⟩ := Reader.checked_of_opens h hopens
    have hnone := hchecked s (by simp)
    rcases Reader.declared_of_undeclaredPlaceholder? hknown hnone hname with
      hname | ⟨m, hm, request, hrequest, hname⟩
    · obtain ⟨s', hs', hname⟩ := hdeclared name hname
      exact Or.inl ⟨s', hs', Reader.lists_of_mem_templateNames hname⟩
    · exact Or.inr
        ⟨.inline m, hm, m, rfl, request, hrequest, Reader.lists_of_mem_templateNames hname⟩

/-! ### A placeholder that a reference declares -/

/-- Reads the scope of a resource alone. -/
def Reader.readScope (inside : Reader.Position) (e : Reader.Element) : Reading Scope := do
  let found ← Reader.items inside .resource e.content
  let params ← Reader.readParams inside .resource found
  return ⟨e.get? "path", params, ← Reader.readMethods inside found⟩

theorem Reader.isScopeOf_of_yields {inside : Reader.Position} {e : Reader.Element} {s : Scope}
    (h : Yields (Reader.readScope inside e) s) : Reader.IsScopeOf s .resource inside e := by
  obtain ⟨found, hfound, h⟩ := h.bind
  obtain ⟨params, hparams, h⟩ := h.bind
  obtain ⟨methods, hmethods, h⟩ := h.bind
  obtain rfl := h.pure
  exact ⟨found, hfound, hparams, hmethods, rfl⟩

/-- A resource that declares the placeholder of its path. -/
def ownPlaceholder : Reader.Element :=
  ⟨⟨.plain "resource", [(.plain "path", "a/\x7bid\x7d")]⟩,
    [.element ⟨.plain "param", [(.plain "name", "id"), (.plain "style", "template")]⟩ []]⟩

/-- A resource that leaves the placeholder of its path to what is around it. -/
def innerPlaceholder : Reader.Element :=
  ⟨⟨.plain "resource", [(.plain "path", "b/\x7bid\x7d")]⟩, []⟩

/-- A resource around it, in which a reference declares the placeholder. -/
def sharedPlaceholder : Reader.Element :=
  ⟨⟨.plain "resource", [(.plain "path", "a/\x7bid\x7d")]⟩,
    [.element ⟨.plain "param", [(.plain "href", "#shared")]⟩ [], innerPlaceholder.node]⟩

/-- A description with a resource, and with the param that the reference names. -/
def sharedDescription (resource : Reader.Element) : Xml.Node :=
  .element ⟨.plain "application", []⟩
    [.element ⟨.plain "param",
        [(.plain "id", "shared"), (.plain "name", "id"), (.plain "style", "template")]⟩ [],
      .element ⟨.plain "resources", []⟩ [resource.node]]

/-- What the reference names. -/
def sharedMeaning : Meaning :=
  ⟨fun ref => if ref.href =
    "http://h/d#shared" then some { name := "id", style := .template, id := "shared" }
    else none, fun _ => none⟩

theorem opens_sharedDescription {e : Reader.Element} {s : Scope} {top : Reader.Position}
    (htag : ElementKind.resource.IsTag e.tag)
    (hs : Reader.IsScopeOf s .resource (Reader.insideResource (top.enter "resources") e) e) :
    Reader.Opens top (sharedDescription e).inside
      (Reader.insideResource (top.enter "resources") e) e [s] := by
  have hgroup : Reader.Element.node
      ⟨⟨.plain "resources", []⟩, [e.node]⟩ ∈ (sharedDescription e).inside :=
    List.mem_cons_of_mem _ List.mem_cons_self
  exact .outermost hgroup ⟨rfl, rfl⟩ List.mem_cons_self htag hs

/-- The description with the reference is refused, although all placeholders in it are declared; the
placeholder of `ownPlaceholder` is declared. -/
theorem placeholders_checked_shared :
    let top := Reader.topPosition "http://h/d" false
    let path := ["application", "resources", "resource[a/\x7bid\x7d]", "resource[b/\x7bid\x7d]"]
    (∃ pos e s around,
      Reader.Opens top (sharedDescription sharedPlaceholder).inside pos e (s :: around) ∧
        pos.path = path ∧ "id" ∈ s.placeholders ∧ s.IsKnown ∧
          ∀ μ, s.Declares μ around "id" → ∃ s' ∈ around, ∃ ref id p,
            .ref ref id ∈ s'.params ∧ Meaning.param? μ ref = some p ∧
            p.style = .template ∧ p.name = "id") ∧
      (∃ pos s outer,
        Reader.Opens top (sharedDescription sharedPlaceholder).inside pos
          innerPlaceholder [s, outer] ∧ pos.path = path ∧ s.Declares sharedMeaning [outer] "id") ∧
      ∃ pos s, Reader.Opens top (sharedDescription ownPlaceholder).inside pos ownPlaceholder [s] ∧
        ∀ μ, s.Declares μ [] "id" := by
  intro top path
  let inside (e : Reader.Element) : Reader.Position :=
    Reader.insideResource (top.enter "resources") e
  refine ⟨?_, ?_, ?_⟩
  · exact (placeholders_checked _ _ _).1 _ _ (fails_of_errorOf? (s := []) (by decide +kernel))
  · obtain ⟨s, _, hs⟩ := exists_gives (s := [])
      (x := Reader.readScope (Reader.insideResource (inside sharedPlaceholder) innerPlaceholder)
        innerPlaceholder)
      (by decide +kernel)
    obtain ⟨outer, _, houter, hshared⟩ :=
      exists_gives_of_any (x := Reader.readScope (inside sharedPlaceholder)
        sharedPlaceholder) (s := [])
      (p := fun outer => outer.params.any fun item => (sharedMeaning.ofParam item).any fun p =>
        p.style = .template && p.name = "id")
      (by decide +kernel)
    have hopens := opens_sharedDescription (e := sharedPlaceholder) ⟨rfl, rfl⟩
      (Reader.isScopeOf_of_yields houter.yields)
    refine ⟨_, s, outer, .inner hopens (List.mem_cons_of_mem _ List.mem_cons_self) ⟨rfl, rfl⟩
      (Reader.isScopeOf_of_yields hs.yields), by decide +kernel, ?_⟩
    obtain ⟨item, hitem, hany⟩ := List.any_eq_true.1 hshared
    obtain ⟨p, hp, hdeclares⟩ := (Option.any_eq_true _ _).1 hany
    obtain ⟨hstyle, hname⟩ := Bool.and_eq_true_iff.1 hdeclares
    exact Or.inl ⟨outer, List.mem_cons_of_mem _ List.mem_cons_self, item, hitem, p, hp,
      of_decide_eq_true hstyle, of_decide_eq_true hname⟩
  · obtain ⟨s, _, hs, hinline⟩ := exists_gives_of_any (x := Reader.readScope (inside ownPlaceholder)
        ownPlaceholder) (s := [])
      (p := fun s => s.path =
        some "a/\x7bid\x7d" && !Reader.hasReferences s.params && s.methods.isEmpty)
      (by decide +kernel)
    obtain ⟨hinline, hmethods⟩ := Bool.and_eq_true_iff.1 hinline
    obtain ⟨hpath, hreferences⟩ := Bool.and_eq_true_iff.1 hinline
    have hknown : s.IsKnown := by
      refine ⟨Reader.hasReferences_eq_false.1 (by simpa using hreferences), ?_⟩
      rw [List.isEmpty_iff.1 hmethods]
      simp
    have hname : "id" ∈ s.placeholders := by
      rw [Scope.placeholders, of_decide_eq_true hpath]
      decide +kernel
    obtain ⟨app, _, happ⟩ := exists_gives (s := [])
      (x := readDescription "http://h/d" false (sharedDescription ownPlaceholder))
        (by decide +kernel)
    have hopens :=
      opens_sharedDescription (e := ownPlaceholder) ⟨rfl, rfl⟩
        (Reader.isScopeOf_of_yields hs.yields)
    exact ⟨_, s, hopens,
      (placeholders_checked _ _ _).2 app happ.yields _ _ s [] hopens hknown "id" hname⟩

end Wadl
