import Wadl.Proofs.Document.Placeholders

/-!
# The children of an element

Readers go over the children of an element kind by kind: `childrenOf` are those of one kind. The
items of an element are those of its children that have a kind, if all children may stand there
(`always_items_of_admits`, `admitsAll_of_yields`), and the resources are its children that are
resources, read one by one (`readResources_eq_mapM`).
-/

namespace Wadl

/-- An element has at most one kind. -/
theorem ElementKind.IsTag.unique {k k' : ElementKind} {tag : Xml.Tag} (h : k.IsTag tag)
    (h' : k'.IsTag tag) : k = k' := by
  have hword := ElementKind.ofWord?_word k
  rw [← h.1, h'.1, ElementKind.ofWord?_word] at hword
  exact (Option.some.inj hword).symm

namespace Reader

variable {pos : Position} {parent : ElementKind} {content : List Xml.Node}

theorem Element.node_inj {e e' : Element} (h : e.node = e'.node) : e = e' := by
  cases e
  cases e'
  simpa [Element.node] using h

/-! ## Children -/

section Kinds

variable {k l : ElementKind} {e : Element} {found : List (ElementKind × Element)}

theorem mem_ofKind : e ∈ ofKind k found ↔ (k, e) ∈ found := by
  unfold ofKind
  rw [List.mem_filterMap]
  constructor
  · rintro ⟨⟨k', e'⟩, hmem, hsome⟩
    have heq : k' = k ∧ e' = e := by simpa using hsome
    rwa [← heq.1, ← heq.2]
  · intro hmem
    exact ⟨(k, e), hmem, if_pos rfl⟩

theorem ofKind_cons_self : ofKind k ((k, e) :: found) = e :: ofKind k found := by
  simp [ofKind]

theorem ofKind_cons_of_ne (h : k ≠ l) : ofKind l ((k, e) :: found) = ofKind l found := by
  simp [ofKind, h]

theorem ofKind_items_append (k : ElementKind) (found more : List (ElementKind × Element)) :
    ofKind k (found ++ more) = ofKind k found ++ ofKind k more := List.filterMap_append

end Kinds

/-- The children of a kind among some content. -/
def childrenOf (kind : ElementKind) (content : List Xml.Node) : List Element :=
  ofKind kind (content.filterMap itemOf?)

theorem mem_childrenOf {kind : ElementKind} {e : Element} (hkind : kind ≠ .doc) :
    e ∈ childrenOf kind content ↔ e.node ∈ content ∧ kind.IsTag e.tag := by
  rw [childrenOf, mem_ofKind, List.mem_filterMap]
  simp only [itemOf?_eq_some hkind]
  exact ⟨fun ⟨_, hn, hnode, htag⟩ => ⟨hnode ▸ hn, htag⟩, fun ⟨hn, htag⟩ => ⟨_, hn, rfl, htag⟩⟩

/-- A child of the kind that is asked for comes first. -/
theorem childrenOf_cons_of_eq {kind : ElementKind} {n : Xml.Node} {e : Element}
    (h : itemOf? n = some (kind, e)) :
    childrenOf kind (n :: content) = e :: childrenOf kind content := by
  rw [childrenOf, List.filterMap_cons_some h, ofKind_cons_self, childrenOf]

/-- Any other is passed over. -/
theorem childrenOf_cons_of_ne {kind : ElementKind} {n : Xml.Node}
    (h : ∀ e, itemOf? n ≠ some (kind, e)) :
    childrenOf kind (n :: content) = childrenOf kind content := by
  unfold childrenOf
  cases hn : itemOf? n with
  | none => rw [List.filterMap_cons_none hn]
  | some item =>
    have hne : item.1 ≠ kind := fun heq => h item.2 (heq ▸ hn)
    rw [List.filterMap_cons_some hn, ofKind_cons_of_ne hne]

/-- An element with a tag may stand in an element of a kind: reading takes it or leaves it out. -/
def Admits (strict : Bool) (parent : ElementKind) (tag : Xml.Tag) : Prop :=
  tag.name.label = ElementKind.doc.word ∨ tag.name.isWadl = false ∨
    (∃ kind ∈ parent.children, tag.name.label = kind.word) ∨
      strict = false ∧ ElementKind.ofWord? tag.name.label = none

/-- All elements among some content may stand in an element of a kind. -/
def AdmitsAll (strict : Bool) (parent : ElementKind) (content : List Xml.Node) : Prop :=
  ∀ e : Element, e.node ∈ content → Admits strict parent e.tag

/-- Children are admitted one by one. -/
theorem admitsAll_cons {strict : Bool} {n : Xml.Node} : AdmitsAll strict parent (n :: content) ↔
    (∀ e : Element, e.node = n → Admits strict parent e.tag) ∧ AdmitsAll strict parent content := by
  unfold AdmitsAll
  simp only [List.mem_cons, or_imp, forall_and]

/-- The items are read if all elements may stand there. -/
theorem always_items_of_admits : ∀ {content : List Xml.Node}, AdmitsAll pos.strict parent content →
    Always (items pos parent content) (content.filterMap itemOf?)
  | [], _ => always_pure []
  | .element tag inside :: rest, h => by
    obtain ⟨hfirst, hrest⟩ := admitsAll_cons.1 h
    have ih := always_items_of_admits hrest
    have htag := hfirst ⟨tag, inside⟩ rfl
    simp only [items, List.filterMap_cons, itemOf?]
    split
    · exact ih.bind (always_pure _)
    · rename_i hdoc
      split
      · exact (always_modify _).bind ih
      · rename_i hwadl
        rcases htag with hlabel | hforeign | ⟨kind, hkind, hlabel⟩ | ⟨hlenient, hnone⟩
        · exact absurd hlabel hdoc
        · exact absurd (by simp [hforeign]) hwadl
        · have hword : ElementKind.ofWord? tag.name.label = some kind :=
            ElementKind.ofWord?_eq_some.2 hlabel
          simp only [hword, Option.map_some]
          rw [if_pos (List.contains_iff_mem.2 hkind)]
          exact ih.bind (always_pure _)
        · have hword : ElementKind.ofWord? tag.name.label = none := hnone
          simp only [hword, Option.map_none, hlenient, Bool.false_eq_true, if_false]
          exact (always_modify _).bind ih
  | .text _ :: rest, h | .comment _ :: rest, h | .instruction _ :: rest, h =>
    show Always (items pos parent rest) (rest.filterMap itemOf?) from
      always_items_of_admits (admitsAll_cons.1 h).2

/-- If the items are read, all elements may stand there. -/
theorem admitsAll_of_yields : ∀ {content : List Xml.Node} {found : List (ElementKind × Element)},
    Yields (items pos parent content) found → AdmitsAll pos.strict parent content
  | [], _, _ => fun _ he => by cases he
  | .element tag inside :: rest, found, h => by
    have hitem : ∀ {kind : ElementKind},
        Yields (do return (kind, Element.mk tag inside) :: (← items pos parent rest)) found →
          AdmitsAll pos.strict parent rest := by
      intro kind h
      obtain ⟨_, hmore, -⟩ := h.bind
      exact admitsAll_of_yields hmore
    have hfirst : ∀ {e : Element}, Admits pos.strict parent tag →
        e.node = .element tag inside → Admits pos.strict parent e.tag := by
      intro e htag he
      obtain rfl : e = ⟨tag, inside⟩ := Element.node_inj he
      exact htag
    simp only [items] at h
    rw [admitsAll_cons]
    split at h
    · rename_i hdoc
      exact ⟨fun e => hfirst (.inl hdoc), hitem h⟩
    · split at h
      · rename_i hforeign
        obtain ⟨_, _, h⟩ := h.bind
        exact ⟨fun e => hfirst (.inr (.inl (by simpa using hforeign))), admitsAll_of_yields h⟩
      · split at h
        · rename_i kind hkind
          split at h
          · rename_i hallowed
            refine ⟨fun e =>
              hfirst (.inr (.inr (.inl ⟨kind, List.contains_iff_mem.1 hallowed, ?_⟩))), hitem h⟩
            exact ElementKind.ofWord?_eq_some.1 hkind
          · exact absurd h not_yields_throw
        · rename_i hnone
          split at h
          · exact absurd h not_yields_throw
          · rename_i hlenient
            obtain ⟨_, _, h⟩ := h.bind
            refine ⟨fun e => hfirst (.inr (.inr (.inr ⟨by simpa using hlenient, hnone⟩))), ?_⟩
            exact admitsAll_of_yields h
  | .text _ :: rest, _, h | .comment _ :: rest, _, h | .instruction _ :: rest, _, h => by
    simp only [items] at h
    rw [admitsAll_cons]
    exact ⟨fun e he => by simp [Element.node] at he, admitsAll_of_yields h⟩

/-! ## Resources -/

/-- An element that is a resource, with those below it. -/
def readResourceAt (pos : Position) (inherited : List String) (e : Element) : Reading Resource :=
  readResource pos inherited e fun inside declared => readResources inside declared e.content

/-- The resources among some content are its children that are resources, read one by one. -/
theorem readResources_eq_mapM (pos : Position) (inherited : List String) :
    ∀ content : List Xml.Node,
      readResources pos inherited content =
        (childrenOf .resource content).mapM (readResourceAt pos inherited)
  | [] => by simp [readResources, childrenOf, ofKind]
  | .element tag inside :: rest => by
    have ih := readResources_eq_mapM pos inherited rest
    rw [readResources, readIfResource, ih]
    by_cases htag : isResourceTag tag = true
    · have hitem : itemOf? (.element tag inside) = some (.resource, ⟨tag, inside⟩) :=
        (itemOf?_eq_some (by decide)).2 ⟨rfl, isResourceTag_iff_isTag.1 htag⟩
      rw [if_pos htag, childrenOf_cons_of_eq hitem, List.mapM_cons, bind_map_left]
      simp [readResourceAt]
    · have hitem : ∀ e, itemOf? (.element tag inside) ≠ some (.resource, e) := by
        intro e h
        obtain ⟨hnode, hresource⟩ := (itemOf?_eq_some (by decide)).1 h
        obtain rfl : e = ⟨tag, inside⟩ := Element.node_inj hnode
        exact htag (isResourceTag_iff_isTag.2 hresource)
      rw [if_neg htag, childrenOf_cons_of_ne hitem]
      simp
  | .text _ :: rest | .comment _ :: rest | .instruction _ :: rest => by
    rw [readResources, readResources_eq_mapM pos inherited rest,
      childrenOf_cons_of_ne fun _ h => by cases h]
    simp [readIfResource]

/-! ## Names -/

/-- The value of an attribute of an element that is no reference. -/
def Element.own? (e : Element) (attr : String) : Option String :=
  if (e.get? "href").isSome then none else e.get? attr

/-- The identifier of an element that is no reference, if it is not empty. -/
def Element.ownId? (e : Element) : Option String := (e.own? "id").filter (!·.isEmpty)

/-- The names of the params among some content that are no references. -/
def paramNamesIn (content : List Xml.Node) : List String :=
  (childrenOf .param content).filterMap (·.own? "name")

/-- The values of the options among some content. -/
def optionValuesIn (content : List Xml.Node) : List String :=
  (childrenOf .option content).filterMap (·.get? "value")

/-- The identifiers of the methods among some content that are no references, without empty ones. -/
def methodIdsIn (content : List Xml.Node) : List String :=
  (childrenOf .method content).filterMap (·.ownId?)

/-- Lists that agree element by element yield the same. -/
theorem filterMap_of_forall₂ {α β γ : Type} {f : α → Option γ} {g : β → Option γ}
    {xs : List α} {ys : List β} (h : List.Forall₂ (fun x y => g y = f x) xs ys) :
    ys.filterMap g = xs.filterMap f := by
  induction h with
  | nil => rfl
  | cons hxy _ ih => rw [List.filterMap_cons, List.filterMap_cons, hxy, ih]

variable {k : ElementKind} {e : Element} {es : List Element}

/-- A param has the name in its element; options and methods keep what they were given as well. -/
theorem yields_readParam_name {item : ParamItem} (h : Yields (readParam pos k e) item) :
    item.param?.map (·.name) = e.own? "name" := by
  simp only [readParam] at h
  obtain ⟨_, -, h⟩ := h.bind
  split at h
  · rename_i href hhref
    obtain ⟨r, -, h⟩ := h.bind
    rw [← h.pure]
    simp [ParamItem.param?, Element.own?, hhref]
  · rename_i hhref
    obtain ⟨p, hp, h⟩ := h.bind
    rw [← h.pure]
    simp only [readParamBody] at hp
    obtain ⟨name, hname, hp⟩ := hp.bind
    obtain ⟨_, -, hp⟩ := hp.bind
    obtain ⟨_, -, hp⟩ := hp.bind
    obtain ⟨_, -, hp⟩ := hp.bind
    obtain ⟨_, -, hp⟩ := hp.bind
    obtain ⟨_, -, hp⟩ := hp.bind
    obtain ⟨_, -, hp⟩ := hp.bind
    obtain ⟨_, -, hp⟩ := hp.bind
    obtain rfl := hp.pure
    simp [ParamItem.param?, Element.own?, hhref, yields_required hname]

theorem yields_readOption_value {o : ParamOption} (h : Yields (readOption pos e) o) :
    some o.value = e.get? "value" := by
  obtain ⟨value, hvalue, h⟩ := h.bind
  obtain ⟨_, -, h⟩ := h.bind
  rw [← h.pure]
  exact (yields_required hvalue).symm

/-- A method that is read has the identifier of its element. -/
theorem yields_readMethodBody_id {m : Method} (h : Yields (readMethodBody pos e) m) :
    m.id = e.get? "id" := by
  obtain ⟨_, -, h⟩ := h.bind
  obtain ⟨_, -, h⟩ := h.bind
  obtain ⟨_, -, h⟩ := h.bind
  obtain ⟨_, -, h⟩ := h.bind
  rw [← h.pure]

theorem yields_readMethod_id {item : MethodItem} (h : Yields (readMethod pos e) item) :
    methodId? item = e.ownId? := by
  simp only [readMethod] at h
  split at h
  · rename_i href hhref
    obtain ⟨r, -, h⟩ := h.bind
    rw [← h.pure]
    simp [methodId?, Element.ownId?, Element.own?, hhref]
  · rename_i hhref
    obtain ⟨m, hm, h⟩ := h.bind
    rw [← h.pure]
    simp [methodId?, Element.ownId?, Element.own?, hhref, yields_readMethodBody_id hm]

/-- The params that are read have the names of their elements. -/
theorem yields_mapM_paramNames {params : List ParamItem}
    (h : Yields (es.mapM (readParam pos k)) params) :
    paramNames params = es.filterMap (·.own? "name") := by
  rw [paramNames, List.map_filterMap]
  exact filterMap_of_forall₂ (h.mapM.imp fun _ _ => yields_readParam_name)

theorem yields_mapM_optionValues {options : List ParamOption}
    (h : Yields (es.mapM (readOption pos)) options) :
    options.map (·.value) = es.filterMap (·.get? "value") := by
  rw [← List.filterMap_eq_map]
  exact filterMap_of_forall₂ (h.mapM.imp fun _ _ => yields_readOption_value)

theorem yields_mapM_methodIds {methods : List MethodItem}
    (h : Yields (es.mapM (readMethod pos)) methods) :
    methods.filterMap methodId? = es.filterMap (·.ownId?) :=
  filterMap_of_forall₂ (h.mapM.imp fun _ _ => yields_readMethod_id)

end Reader

end Wadl
