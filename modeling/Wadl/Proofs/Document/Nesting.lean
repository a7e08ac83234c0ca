import Wadl.Proofs.Document.Sites

/-!
# Where elements may stand

Reading is the same without what stands in inclusions and references (`readDescription_pruned`), so
that nothing is wanted of it. `nesting_checked` says what is wanted of everything else.
-/

namespace Wadl

open Reader

/-- The kind of the elements with a tag. -/
def ElementKind.ofTag? (tag : Xml.Tag) : Option ElementKind :=
  if tag.name.isWadl then ofWord? tag.name.label else none

/-- The kind of a tag is the one that the tag is of. -/
theorem ElementKind.ofTag?_eq_some {tag : Xml.Tag} {k : ElementKind} :
    ofTag? tag = some k ↔ k.IsTag tag := by
  unfold ofTag? IsTag
  by_cases h : tag.name.isWadl = true <;> simp [h, ofWord?_eq_some]

instance (s : Site) : Decidable s.IsReference := inferInstanceAs (Decidable (_ ∧ _))

instance (s : Site) : Decidable s.Closed := inferInstanceAs (Decidable (_ ∨ _))

namespace Reader

/-! ## Pruning -/

mutual

/-- A piece of the content of an element, without what stands in inclusions and references. -/
def pruneNode (around : ElementKind) : Xml.Node → Xml.Node
  | .element tag content =>
    match ElementKind.ofTag? tag with
    | none | some .doc => .element tag content
    | some k =>
      .element tag (if Site.Closed ⟨around, k, ⟨tag, content⟩⟩ then [] else pruneNodes k content)
  | n => n

/-- The content of an element, without what stands in inclusions and references. -/
def pruneNodes (around : ElementKind) : List Xml.Node → List Xml.Node
  | [] => []
  | n :: rest => pruneNode around n :: pruneNodes around rest

end

/-- An element without what stands in inclusions and references. -/
def prune (around k : ElementKind) (e : Element) : Element :=
  ⟨e.tag, if k = .doc then e.content else if Site.Closed ⟨around, k, e⟩ then []
    else pruneNodes k e.content⟩

/-- Items of an element, without what stands in inclusions and references. -/
def pruneItem (around : ElementKind) (x : ElementKind × Element) : ElementKind × Element :=
  (x.1, prune around x.1 x.2)

section Prune

variable {pos : Position} {around k : ElementKind} {e : Element}
    {found : List (ElementKind × Element)}

/-- Pruning an element keeps its attributes. -/
theorem get?_prune (attr : String) : (prune around k e).get? attr = e.get? attr := rfl

theorem prune_doc : prune around .doc e = e := rfl

/-- Of an element that reading looks into, the content is pruned. -/
theorem content_prune (isOpen : ¬Site.Closed ⟨around, k, e⟩) :
    (prune around k e).content = pruneNodes k e.content := by
  have hdoc : k ≠ .doc := fun h => isOpen (Or.inl h)
  rw [prune, if_neg hdoc, if_neg isOpen]

/-- An element that is pruned keeps its tag, and is the pruned item if it is one. -/
theorem exists_pruneNode (around : ElementKind) (e : Element) :
    ∃ content, pruneNode around e.node = .element e.tag content ∧
      (e.tag.name.label = ElementKind.doc.word → content = e.content) ∧
        ∀ k : ElementKind, k.IsTag e.tag → prune around k e = ⟨e.tag, content⟩ := by
  rw [Element.node, pruneNode]
  split
  · rename_i hnone
    refine ⟨_, rfl, fun _ => rfl, fun k htag => ?_⟩
    rw [ElementKind.ofTag?_eq_some.2 htag] at hnone
    cases hnone
  · rename_i hdoc
    refine ⟨_, rfl, fun _ => rfl, fun k htag => ?_⟩
    rw [htag.unique (ElementKind.ofTag?_eq_some.1 hdoc)]
    exact prune_doc
  · rename_i k hdoc hkind
    have htag := ElementKind.ofTag?_eq_some.1 hkind
    refine ⟨_, rfl, fun hlabel => ?_, fun k' htag' => ?_⟩
    · exact absurd (htag.unique ⟨hlabel, htag.2⟩) fun h => hdoc h
    · rw [htag'.unique htag, prune, if_neg fun h => hdoc h]

/-- The items of pruned content are the pruned items. -/
theorem items_prune : ∀ content : List Xml.Node,
    items pos k (pruneNodes k content) = List.map (pruneItem k) <$> items pos k content
  | [] => by simp [pruneNodes, items]
  | .element tag inside :: rest => by
    have ih := items_prune rest
    obtain ⟨content, hnode, hdoc, hitem⟩ := exists_pruneNode k ⟨tag, inside⟩
    rw [Element.node] at hnode
    rw [pruneNodes, hnode]
    simp only [items, ih]
    split
    · rename_i hlabel
      simp [hdoc hlabel, pruneItem, prune_doc]
    · split
      · simp
      · rename_i hwadl
        have hwadl : tag.name.isWadl = true := by simpa using hwadl
        split
        · rename_i kind hkind
          have htag : kind.IsTag tag := ⟨ElementKind.ofWord?_eq_some.1 hkind, hwadl⟩
          split
          · simp [pruneItem, hitem kind htag]
          · rfl
        · split
          · rfl
          · simp
  | .text _ :: rest | .comment _ :: rest | .instruction _ :: rest => by
    have ih := items_prune rest
    simpa only [pruneNodes, pruneNode, items] using ih

/-- Pruned items are of the same kinds. -/
theorem ofKind_prune {kind : ElementKind} :
    ofKind kind (found.map (pruneItem k)) = (ofKind kind found).map (prune k kind) := by
  unfold ofKind
  rw [List.filterMap_map, List.map_filterMap]
  refine List.filterMap_congr fun x _ => ?_
  by_cases h : x.1 = kind <;> simp [pruneItem, h]

/-- Documentation is not pruned. -/
theorem readDocs_prune : readDocs (found.map (pruneItem k)) = readDocs found := by
  rw [readDocs, ofKind_prune, readDocs]
  simp [prune_doc, Function.comp_def]

/-- Items of a kind are read alike if each is. -/
theorem mapM_prune {α : Type} {kind : ElementKind} {read : Element → Reading α}
    (h : ∀ e, read (prune k kind e) = read e) :
    (ofKind kind (found.map (pruneItem k))).mapM read = (ofKind kind found).mapM read := by
  rw [ofKind_prune, List.mapM_map]
  exact congrArg (fun f => (ofKind kind found).mapM f) (funext h)

/-! ## Readers of pruned elements -/

theorem readOption_prune : readOption pos (prune k .option e) = readOption pos e := by
  have isOpen : ¬Site.Closed ⟨k, .option, e⟩ := not_closed_of_kind (by simp)
  simp only [readOption, content_prune isOpen, items_prune, bind_map_left, readDocs_prune]
  rfl

theorem readLink_prune : readLink pos (prune k .link e) = readLink pos e := by
  have isOpen : ¬Site.Closed ⟨k, .link, e⟩ := not_closed_of_kind (by simp)
  simp only [readLink, content_prune isOpen, items_prune, bind_map_left, readDocs_prune]
  rfl

/-- A param is read without what is nested in it wrongly. -/
theorem readParam_prune : readParam pos k (prune k .param e) = readParam pos k e := by
  simp only [readParam, get?_prune]
  cases hhref : e.get? "href" with
  | some href => rfl
  | none =>
    have isOpen : ¬Site.Closed ⟨k, .param, e⟩ := not_closed_of_href hhref (by simp)
    simp only [readParamBody, content_prune isOpen, items_prune, bind_map_left, readDocs_prune,
      mapM_prune fun _ => readOption_prune, mapM_prune fun _ => readLink_prune]
    rfl

/-- Params are read without what is nested in them wrongly. -/
theorem readParams_prune : readParams pos k (found.map (pruneItem k)) = readParams pos k found := by
  simp only [readParams, mapM_prune fun _ => readParam_prune]

theorem readRepresentation_prune :
    readRepresentation pos k (prune k .representation e) = readRepresentation pos k e := by
  simp only [readRepresentation, get?_prune]
  cases hhref : e.get? "href" with
  | some href => rfl
  | none =>
    have isOpen : ¬Site.Closed ⟨k, .representation, e⟩ := not_closed_of_href hhref (by simp)
    simp only [readRepresentationBody, content_prune isOpen, items_prune,
      bind_map_left, readDocs_prune, readParams_prune]
    rfl

theorem readRepresentations_prune :
    readRepresentations pos k (found.map (pruneItem k)) = readRepresentations pos k found :=
  mapM_prune fun _ => readRepresentation_prune

theorem readRequest_prune : readRequest pos (prune k .request e) = readRequest pos e := by
  have isOpen : ¬Site.Closed ⟨k, .request, e⟩ := not_closed_of_kind (by simp)
  simp only [readRequest, content_prune isOpen, items_prune, bind_map_left,
    readDocs_prune, readParams_prune, readRepresentations_prune]

theorem readResponse_prune : readResponse pos (prune k .response e) = readResponse pos e := by
  have isOpen : ¬Site.Closed ⟨k, .response, e⟩ := not_closed_of_kind (by simp)
  simp only [readResponse, content_prune isOpen, items_prune, bind_map_left,
    readDocs_prune, readParams_prune, readRepresentations_prune]
  rfl

theorem readOnlyRequest_prune (es : List Element) :
    readOnlyRequest pos (es.map (prune k .request)) = readOnlyRequest pos es := by
  match es with
  | [] => rfl
  | [_] => simp only [List.map_cons, List.map_nil, readOnlyRequest, readRequest_prune]
  | _ :: _ :: _ => rfl

theorem readMethodBody_prune (isOpen : ¬Site.Closed ⟨k, .method, e⟩) :
    readMethodBody pos (prune k .method e) = readMethodBody pos e := by
  simp only [readMethodBody, content_prune isOpen, items_prune, bind_map_left,
    readDocs_prune, ofKind_prune, readOnlyRequest_prune]
  simp only [← ofKind_prune, mapM_prune fun _ => readResponse_prune]
  rfl

/-- A method is read without what is nested in it wrongly. -/
theorem readMethod_prune : readMethod pos (prune k .method e) = readMethod pos e := by
  simp only [readMethod, get?_prune]
  cases hhref : e.get? "href" with
  | some href => rfl
  | none =>
    simp only [readMethodBody_prune (not_closed_of_href hhref (by simp))]
    rfl

theorem readMethods_prune : readMethods pos (found.map (pruneItem k)) = readMethods pos found := by
  simp only [readMethods, mapM_prune fun _ => readMethod_prune]

theorem readTopMethod_prune :
    readTopMethod pos (prune .application .method e) = readTopMethod pos e := by
  have isOpen : ¬Site.Closed ⟨.application, .method, e⟩ := by simp [Site.Closed, Site.IsReference]
  simp only [readTopMethod, readMethodBody_prune isOpen]
  rfl

/-- A resource is read without what is nested in it wrongly, if those below are. -/
theorem readResource_prune {inherited : List String}
    {below below' : Position → List String → Reading (List Resource)}
    (h : ∀ inside declared, below inside declared = below' inside declared) :
    readResource pos inherited (prune k .resource e) below =
      readResource pos inherited e below' := by
  have isOpen : ¬Site.Closed ⟨k, .resource, e⟩ := not_closed_of_kind (by simp)
  simp only [readResource, content_prune isOpen, items_prune, bind_map_left,
    readDocs_prune, readParams_prune, readMethods_prune, h]
  rfl

mutual

/-- A piece of a content is read without what is nested in it wrongly, by induction on the tree. -/
theorem readIfResource_prune :
    ∀ (n : Xml.Node) {k : ElementKind} {pos : Position} {inherited : List String},
    readIfResource pos inherited (pruneNode k n) = readIfResource pos inherited n
  | .element tag inside, k, pos, inherited => by
    obtain ⟨content, hnode, -, hitem⟩ := exists_pruneNode k ⟨tag, inside⟩
    rw [Element.node] at hnode
    rw [hnode, readIfResource, readIfResource]
    split
    · rename_i htag
      have hpruned := hitem .resource (isResourceTag_iff_isTag.1 htag)
      have isOpen : ¬Site.Closed ⟨k, .resource, ⟨tag, inside⟩⟩ := not_closed_of_kind (by simp)
      have hcontent : pruneNodes .resource inside = content := by
        rw [← content_prune isOpen, hpruned]
      rw [← hpruned, ← hcontent]
      refine congrArg (some <$> ·) (readResource_prune fun inside' declared => ?_)
      exact readResources_prune inside
    · rfl
  | .text _, _, _, _ | .comment _, _, _, _ | .instruction _, _, _, _ => rfl

theorem readResources_prune : ∀ (content : List Xml.Node) {k : ElementKind} {pos : Position}
    {inherited : List String},
      readResources pos inherited (pruneNodes k content) = readResources pos inherited content
  | [], _, _, _ => rfl
  | n :: rest, _, _, _ => by
    rw [pruneNodes, readResources, readResources, readIfResource_prune n, readResources_prune rest]

end

theorem readResourceType_prune :
    readResourceType pos (prune k .resourceType e) = readResourceType pos e := by
  have isOpen : ¬Site.Closed ⟨k, .resourceType, e⟩ := not_closed_of_kind (by simp)
  simp only [readResourceType, content_prune isOpen, items_prune, bind_map_left,
    readDocs_prune, readParams_prune, readMethods_prune, readResources_prune]
  rfl

theorem readGroup_prune : readGroup pos (prune k .resources e) = readGroup pos e := by
  have isOpen : ¬Site.Closed ⟨k, .resources, e⟩ := not_closed_of_kind (by simp)
  simp only [readGroup, content_prune isOpen, items_prune, bind_map_left, readResources_prune]
  rfl

/-- Grammars are read without what is nested in inclusions. -/
theorem readGrammars_prune : readGrammars pos (prune k .grammars e) = readGrammars pos e := by
  have isOpen : ¬Site.Closed ⟨k, .grammars, e⟩ := not_closed_of_kind (by simp)
  have hincludes : ∀ found : List (ElementKind × Element),
      ((ofKind .include (found.map (pruneItem .grammars))).mapM fun child =>
        required (pos.enter "grammars") child .include "href") =
      (ofKind .include found).mapM fun child =>
        required (pos.enter "grammars") child .include "href" :=
    fun _ => mapM_prune fun _ => rfl
  simp only [readGrammars, content_prune isOpen, items_prune, bind_map_left, hincludes]

/-- Adding an item looks only at what is left when it is pruned. -/
theorem addItem_prune {app : Application} (x : ElementKind × Element) :
    addItem pos app (pruneItem .application x) = addItem pos app x := by
  obtain ⟨kind, e⟩ := x
  cases kind <;>
    simp only [pruneItem, addItem, readResourceType_prune,
      readRepresentation_prune, readParam_prune,
      readTopMethod_prune, readGrammars_prune, readGroup_prune]

end Prune

end Reader

/-- Reading is the same without what stands in inclusions and references. -/
theorem readDescription_pruned {base : String} {strict : Bool} {e : Element} :
    readDescription base strict (prune .application .application e).node =
      readDescription base strict e.node := by
  have isOpen : ¬Site.Closed ⟨.application, .application, e⟩ := not_closed_of_kind (by simp)
  have happlication : readApplication base strict (prune .application .application e).node =
      readApplication base strict e.node := by
    simp only [Element.node, readApplication, content_prune isOpen, items_prune,
      bind_map_left, readDocs_prune, List.foldlM_map, addItem_prune]
    rfl
  rw [readDescription, readDescription, happlication]

/-! ## Nesting -/

namespace Site

variable {base : String} {strict : Bool} {s : Site} {error : DocumentError}

/-- An error of nesting says of an element, into which reading looks, that a child is out of
place. -/
theorem Fault.of_isNesting (h : s.Fault base strict error) (hnesting : error.IsNesting = true) :
    ¬s.Closed ∧ ¬s.Orderly strict := by
  cases h with
  | badUri mem join => cases hnesting
  | misplaced isOpen has forbidden =>
    exact ⟨isOpen, fun horderly => forbidden (horderly.allowed _ _ has)⟩
  | unrecognized isStrict isOpen mem isWadl unknown =>
    refine ⟨isOpen, fun horderly => ?_⟩
    obtain ⟨k, htag⟩ := horderly.known isStrict _ mem isWadl
    exact unknown k htag

/-- An error of nesting is the fault of an element below. -/
theorem Blamed.of_isNesting (h : s.Blamed base strict error) (hnesting : error.IsNesting = true) :
    ∃ t, s.Below t ∧ t.Fault base strict error := by
  rcases h with ⟨-, hnone⟩ | h
  · rw [hnesting] at hnone
    cases hnone
  · exact h

end Site

/-- In a document that is read, only elements that may stand there stand in the elements of the
description at any depth, except in documentation, inclusions and references; if reading is strict,
there are no elements without a kind either. A document is refused for its nesting only if such an
element of it holds one that may not stand there, which the error names. What stands in inclusions
and references makes no difference. -/
theorem nesting_checked (base : String) (strict : Bool) (e : Reader.Element) :
    (∀ app, Yields (readDescription base strict e.node) app →
      ∀ s, (Site.top e).Below s → ¬s.Closed → s.Orderly strict) ∧
    (∀ error, Fails (readDescription base strict e.node) error → error.IsNesting = true →
      ∃ s, (Site.top e).Below s ∧ ¬s.Closed ∧ ¬s.Orderly strict ∧ s.Fault base strict error) ∧
    readDescription base strict (prune .application .application e).node =
      readDescription base strict e.node := by
  refine ⟨fun app happ s hbelow isOpen => ?_, fun error herror hnesting => ?_,
    readDescription_pruned⟩
  · exact (readDescription_ensures.yields app happ s hbelow).orderly isOpen
  · obtain ⟨s, hbelow, hfault⟩ := (readDescription_ensures.fails error herror).of_isNesting hnesting
    obtain ⟨isOpen, hdisorderly⟩ := hfault.of_isNesting hnesting
    exact ⟨s, hbelow, isOpen, hdisorderly, hfault⟩

/-- An inclusion in which a resource stands. -/
def strayResource : Reader.Element :=
  ⟨⟨.plain "include", [(.plain "href", "x.xsd")]⟩,
    [.element ⟨.plain "resource", [(.plain "path", "r")]⟩ []]⟩

/-- The grammars that hold this inclusion. -/
def strayGrammars : Reader.Element := ⟨⟨.plain "grammars", []⟩, [strayResource.node]⟩

/-- A document with these grammars. -/
def strayRoot : Reader.Element := ⟨⟨.plain "application", []⟩, [strayGrammars.node]⟩

/-- The grammars of this document are in order, but reading does not look into the inclusion. -/
theorem nesting_checked_stray :
    ∃ app, Yields (readDescription "http://h/d" true strayRoot.node) app ∧
      Site.Orderly true ⟨.application, .grammars, strayGrammars⟩ ∧
      ¬Site.Orderly true ⟨.grammars, .include, strayResource⟩ := by
  obtain ⟨app, n, happ⟩ :=
    exists_gives (x := readDescription "http://h/d" true strayRoot.node) (s := [])
    (by decide +kernel)
  refine ⟨app, happ.yields, ?_, fun h => ?_⟩
  · have hhas : (Site.top strayRoot).Has .grammars strayGrammars := ⟨List.mem_cons_self, rfl, rfl⟩
    have hbelow := Site.Below.inside (not_closed_of_kind (by simp [Site.top])) hhas .here
    exact (nesting_checked "http://h/d" true strayRoot).1 app happ.yields _ hbelow
      (not_closed_of_kind (by simp))
  · have hhas : Site.Has ⟨.grammars, .include, strayResource⟩ .resource
        ⟨⟨.plain "resource", [(.plain "path", "r")]⟩, []⟩ := ⟨List.mem_cons_self, rfl, rfl⟩
    have hallowed := h.allowed .resource _ hhas
    exact absurd hallowed (by decide)

end Wadl
