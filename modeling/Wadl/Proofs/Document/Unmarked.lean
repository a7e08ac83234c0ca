import Wadl.Proofs.Alike
import Wadl.Proofs.Document.Identifiers
import Wadl.Proofs.Document.Marks
import Wadl.Proofs.Document.Sites

/-!
# Reading with comments and instructions, and without

A document is read twice, with its comments and instructions and without them. Each reader does the
same both times up to the content of documentation: it tells the same, fails for the same reason, or
gives descriptions that are equal just if the comments and instructions are harmless in all
documentation that is read from the element on (`SameUpTo`, `Site.Harmless`). For documents as a
whole this is `marks_harmless_iff`.
-/

namespace Wadl

open Reader

/-! ## The documentation that is read -/

namespace Site

/-- An element is documentation that reading takes from a site; the one of grammars and of groups of
resources is left out. -/
structure Documents (s : Site) (e : Element) : Prop where
  isOpen : ¬s.Closed
  keeps : s.kind ≠ .grammars ∧ s.kind ≠ .resources
  mem : e ∈ childrenOf .doc s.element.content

/-- The marks in all documentation that is read from a site on are harmless. -/
def Harmless (s : Site) : Prop := ∀ t, s.Below t → ∀ e, t.Documents e → e.HarmlessMarks

variable {s : Site}

/-- Marks in what reading does not look into are harmless. -/
theorem harmless_of_closed (h : s.Closed) : s.Harmless := by
  rintro t (_ | ⟨isOpen, -, -⟩) e hdoc
  · exact absurd h hdoc.isOpen
  · exact absurd h isOpen

/-- The documentation that is read from a site on is its own and that from its children on. -/
theorem harmless_iff {strict : Bool} {found : List (ElementKind × Element)}
    (h : ItemsOf strict s found) (isOpen : ¬s.Closed) : s.Harmless ↔
      (s.kind ≠ .grammars ∧ s.kind ≠ .resources → ∀ e ∈ ofKind .doc found, e.HarmlessMarks) ∧
        ∀ k ∈ s.kind.children, k ≠ .doc → ∀ e ∈ ofKind k found, Harmless ⟨s.kind, k, e⟩ := by
  constructor
  · refine fun hs =>
      ⟨fun hkeeps e he => hs s .here e ⟨isOpen, hkeeps, ?_⟩, fun k _ hdoc e he t ht => hs t ?_⟩
    · rwa [← h.children]
    · exact .inside isOpen ((h.mem_iff k e hdoc).1 (mem_ofKind.1 he)) ht
  · rintro ⟨hown, hbelow⟩ t ht e he
    cases ht with
    | here =>
      refine hown he.keeps e ?_
      rw [h.children]
      exact he.mem
    | @inside _ _ k d _ has below =>
      by_cases hdoc : k = .doc
      · subst hdoc
        exact harmless_of_closed (.inl rfl) t below e he
      · exact hbelow k (h.orderly.allowed k d has) hdoc d
          (mem_ofKind.2 ((h.mem_iff k d hdoc).2 has)) t below e he

end Site

/-! ## Two readings -/

/-- Two values that are the same once something in them is erased, and equal just if `P`. -/
structure SameUpTo {α : Type} (erase : α → α) (P : Prop) (a b : α) : Prop where
  erased : erase b = erase a
  eq_iff : b = a ↔ P

/-- Equal results are the same up to anything. -/
theorem SameUpTo.of_eq {α : Type} {erase : α → α} {P : Prop} {a b : α} (h : b = a) (hP : P) :
    SameUpTo erase P a b := ⟨congrArg erase h, iff_of_true h hP⟩

theorem SameUpTo.congr {α : Type} {erase : α → α} {P Q : Prop} {a b : α}
    (h : SameUpTo erase P a b) (hPQ : P ↔ Q) :
    SameUpTo erase Q a b := ⟨h.erased, h.eq_iff.trans hPQ⟩

/-- A description with one more part, with marks and without: `put` adds the part. -/
theorem SameUpTo.put {T : Type} {erase : T → T} {P Q : Prop} {app app' : Application} {t t' : T}
    (happ : SameUpTo (·.recast bare) P app app') (ht : SameUpTo erase Q t t')
    (put : Application → T → Application)
    (hrecast : ∀ app t, (put app t).recast bare = put (app.recast bare) (erase t))
    (hinj : put app' t' = put app t ↔ app' = app ∧ t' = t) :
    SameUpTo (·.recast bare) (P ∧ Q) (put app t) (put app' t') :=
  ⟨by rw [hrecast, hrecast, happ.erased, ht.erased], by rw [hinj, happ.eq_iff, ht.eq_iff]⟩

namespace Reader

open Site

variable {pos : Position} {s : Site} {around : ElementKind} {e : Element}
    {found : List (ElementKind × Element)}

/-- What is read of some children with marks and without. -/
theorem mapM_inStep {α : Type} {erase : α → α} (k : ElementKind) {l : ElementKind}
    (read : Element → Reading α) : ∀ {es : List Element},
      (∀ e ∈ es, InStep (SameUpTo erase (Harmless ⟨k, l, e⟩)) (read e) (read e.unmarked)) →
      InStep (SameUpTo (List.map erase) (∀ e ∈ es, Harmless ⟨k, l, e⟩)) (es.mapM read)
        ((es.map Element.unmarked).mapM read)
  | [], _ => by
    rw [List.map_nil, List.mapM_nil]
    exact .pure (.of_eq rfl (by simp))
  | e :: es, h => by
    obtain ⟨hfirst, hrest⟩ := List.forall_mem_cons.1 h
    rw [List.map_cons, List.mapM_cons, List.mapM_cons]
    refine hfirst.bind fun a b hab =>
      (mapM_inStep k read hrest).bind fun as bs habs => .pure ⟨?_, ?_⟩
    · rw [List.map_cons, List.map_cons, hab.erased, habs.erased]
    · rw [List.cons.injEq, hab.eq_iff, habs.eq_iff, List.forall_mem_cons]

/-- An item without the marks in it. -/
def unmarkedItem (item : ElementKind × Element) : ElementKind × Element := (item.1, item.2.unmarked)

/-- Leaving marks out keeps the kinds of items. -/
theorem ofKind_unmarked (k : ElementKind) : ∀ found : List (ElementKind × Element),
    ofKind k (found.map unmarkedItem) = (ofKind k found).map Element.unmarked
  | [] => rfl
  | (l, e) :: found => by
    have ih := ofKind_unmarked k found
    by_cases hl : l = k
    · subst hl
      rw [List.map_cons, unmarkedItem, ofKind_cons_self, ofKind_cons_self, ih, List.map_cons]
    · rw [List.map_cons, unmarkedItem, ofKind_cons_of_ne hl, ofKind_cons_of_ne hl, ih]

/-- Text between elements is nothing to the items. -/
theorem items_joinText (parent : ElementKind) (t : String) (content : List Xml.Node) :
    items pos parent (Xml.joinText t content) = items pos parent content := by
  unfold Xml.joinText
  split <;> simp only [items]

/-- Marks make no difference to which children an element has. -/
theorem items_unmarked (parent : ElementKind) : ∀ content : List Xml.Node,
    InStep (fun found found' => found' = found.map unmarkedItem) (items pos parent content)
      (items pos parent (Xml.withoutMarksList content))
  | [] => .pure rfl
  | .element tag inside :: rest => by
    have ih := items_unmarked parent rest
    have hitem : ∀ kind : ElementKind, InStep (fun found found' => found' = found.map unmarkedItem)
        (do return (kind, Element.mk tag inside) :: (← items pos parent rest))
        (do return (kind, Element.mk tag (Xml.withoutMarksList inside)) ::
          (← items pos parent (Xml.withoutMarksList rest))) := by
      refine fun kind => ih.bind fun found found' hfound => .pure ?_
      rw [hfound]
      rfl
    rw [Xml.withoutMarksList_element]
    simp only [items]
    split
    · exact hitem _
    · split
      · exact .bind_same _ fun _ => ih
      · split
        · split
          · exact hitem _
          · exact .throw _
        · split
          · exact .throw _
          · exact .bind_same _ fun _ => ih
  | .text t :: rest => by
    rw [Xml.withoutMarksList_text, items_joinText, items]
    · exact items_unmarked parent rest
    · simp
  | .comment t :: rest => by
    rw [Xml.withoutMarksList_comment, items]
    · exact items_unmarked parent rest
    · simp
  | .instruction t :: rest => by
    rw [Xml.withoutMarksList_instruction, items]
    · exact items_unmarked parent rest
    · simp

/-- What is read of the items of a site with marks and without. -/
theorem items_bind {α : Type} {R : α → α → Prop} (isOpen : ¬s.Closed)
    {f g : List (ElementKind × Element) → Reading α}
    (h : ∀ found, ItemsOf pos.strict s found → InStep R (f found) (g (found.map unmarkedItem))) :
    InStep R (items pos s.kind s.element.content >>= f)
      (items pos s.kind s.element.unmarked.content >>= g) := by
  refine (items_unmarked s.kind s.element.content).and_yields.bind fun found found' hfound => ?_
  obtain ⟨rfl, hyields⟩ := hfound
  exact h found ((items_ensures isOpen).yields found hyields)

/-- The documentation among the items of an element with marks and without. -/
theorem readDocs_unmarked (found : List (ElementKind × Element)) :
    SameUpTo (List.map bare.doc) (∀ e ∈ ofKind .doc found, e.HarmlessMarks) (readDocs found)
      (readDocs (found.map unmarkedItem)) := by
  unfold readDocs
  rw [ofKind_unmarked, List.map_map]
  constructor
  · rw [List.map_map, List.map_map]
    exact List.map_congr_left fun e _ => readDoc_unmarked_bare e
  · rw [List.map_inj_left]
    exact forall₂_congr fun e _ => readDoc_unmarked_iff

/-! ### Attributes -/

section Attributes

variable {attr : String} {kind : ElementKind}

theorem get?_unmarked : e.unmarked.get? attr = e.get? attr := rfl

theorem required_unmarked : required pos e.unmarked kind attr = required pos e kind attr := rfl

/-- Identifiers do not depend on marks. -/
theorem requireId_unmarked : requireId pos around e.unmarked kind = requireId pos around e kind :=
  rfl

theorem flag_unmarked : flag pos e.unmarked attr = flag pos e attr := rfl

theorem readStyle_unmarked : readStyle pos e.unmarked around = readStyle pos e around := rfl

theorem insideMethod_unmarked : insideMethod pos e.unmarked = insideMethod pos e := rfl

theorem aliasId_unmarked : aliasId e.unmarked around = aliasId e around := rfl

end Attributes

/-! ### Params -/

theorem readOption_inStep :
    InStep (SameUpTo (·.recast bare) (Harmless ⟨around, .option, e⟩)) (readOption pos e)
    (readOption pos e.unmarked) := by
  have isOpen : ¬Closed ⟨around, .option, e⟩ := not_closed_of_kind (by simp)
  refine .bind_same _ fun value => items_bind isOpen fun found hitems => .pure ?_
  have hdocs := readDocs_unmarked found
  constructor
  · simp only [ParamOption.recast, hdocs.erased]
    rfl
  · rw [harmless_iff hitems isOpen, ParamOption.mk.injEq, hdocs.eq_iff]
    simp [ElementKind.children, Element.unmarked, Element.get?]

/-- Marks in a link can change its documentation only. -/
theorem readLink_inStep :
    InStep (SameUpTo (·.recast bare) (Harmless ⟨around, .link, e⟩)) (readLink pos e)
    (readLink pos e.unmarked) := by
  have isOpen : ¬Closed ⟨around, .link, e⟩ := not_closed_of_kind (by simp)
  refine .bind_same _ fun target => items_bind isOpen fun found hitems => .pure ?_
  have hdocs := readDocs_unmarked found
  constructor
  · simp only [Link.recast, hdocs.erased]
    rfl
  · rw [harmless_iff hitems isOpen, Link.mk.injEq, hdocs.eq_iff]
    simp [ElementKind.children, Element.unmarked, Element.get?]

/-- Options that are the same but for documentation have the same values. -/
theorem values_of_erased {options options' : List ParamOption}
    (h : options'.map (·.recast bare) = options.map (·.recast bare)) :
    options'.map (·.value) = options.map (·.value) := by
  have hvalues := congrArg (List.map ParamOption.value) h
  rwa [List.map_map, List.map_map] at hvalues

/-- Marks in a param can change its documentation and that of its options and links. -/
theorem readParamBody_inStep (hhref : e.get? "href" = none) :
    InStep (SameUpTo (·.recast bare) (Harmless ⟨around, .param, e⟩)) (readParamBody pos around e)
      (readParamBody pos around e.unmarked) := by
  have isOpen : ¬Closed ⟨around, .param, e⟩ := not_closed_of_href hhref (by simp)
  unfold readParamBody
  simp only [required_unmarked, readStyle_unmarked, flag_unmarked, get?_unmarked]
  refine .bind_same _ fun name => .bind_same _ fun style => items_bind isOpen fun found hitems => ?_
  rw [ofKind_unmarked, ofKind_unmarked]
  refine (mapM_inStep .param (readOption pos) fun _ _ => readOption_inStep).bind
    fun options options' hoptions => ?_
  rw [values_of_erased hoptions.erased]
  refine .bind_same _ fun _ => .bind_same _ fun required => .bind_same _ fun repeating => ?_
  refine (mapM_inStep .param (readLink pos) fun _ _ => readLink_inStep).bind
    fun links links' hlinks => .pure ?_
  have hdocs := readDocs_unmarked found
  constructor
  · simp only [Param.recast, hdocs.erased, hoptions.erased, hlinks.erased]
  · rw [harmless_iff hitems isOpen, Param.mk.injEq, hdocs.eq_iff, hoptions.eq_iff, hlinks.eq_iff]
    simp [ElementKind.children]
    tauto

theorem readParam_inStep :
    InStep (SameUpTo (·.recast bare) (Harmless ⟨around, .param, e⟩)) (readParam pos around e)
    (readParam pos around e.unmarked) := by
  unfold readParam
  simp only [get?_unmarked, requireId_unmarked, aliasId_unmarked]
  refine .bind_same _ fun _ => ?_
  split
  · rename_i href hhref
    have hclosed : Closed ⟨around, .param, e⟩ := .inr (.inr ⟨by simp [hhref], .inl rfl⟩)
    exact .bind_same _ fun r => .pure (.of_eq rfl (harmless_of_closed hclosed))
  · rename_i hhref
    refine (readParamBody_inStep hhref).bind fun p p' hp => .pure ⟨?_, ?_⟩
    · exact congrArg ParamItem.inline hp.erased
    · rw [ParamItem.inline.injEq, hp.eq_iff]

/-- Params that are the same but for documentation have the same names. -/
theorem names_of_erased {params params' : List ParamItem}
    (h : params'.map (·.recast bare) = params.map (·.recast bare)) :
    paramNames params' = paramNames params := by
  rw [← paramNames_recast bare params', h, paramNames_recast]

/-- Marks can change the documentation of params, but not whether their names differ. -/
theorem readParams_inStep : InStep
    (SameUpTo (List.map (·.recast bare)) (∀ e ∈ ofKind .param found, Harmless ⟨around, .param, e⟩))
    (readParams pos around found) (readParams pos around (found.map unmarkedItem)) := by
  unfold readParams
  rw [ofKind_unmarked]
  refine (mapM_inStep around (readParam pos around) fun _ _ => readParam_inStep).bind
    fun params params' hparams => ?_
  have hnames := names_of_erased hparams.erased
  unfold paramNames at hnames
  rw [hnames]
  exact .bind_same _ fun _ => .pure hparams

/-! ### Representations -/

theorem readRepresentationBody_inStep (around : ElementKind) (hhref : e.get? "href" = none) :
    InStep (SameUpTo (·.recast bare) (Harmless ⟨around, .representation, e⟩))
      (readRepresentationBody pos e) (readRepresentationBody pos e.unmarked) := by
  have isOpen : ¬Closed ⟨around, .representation, e⟩ := not_closed_of_href hhref (by simp)
  unfold readRepresentationBody
  simp only [get?_unmarked]
  refine items_bind isOpen fun found hitems => ?_
  refine readParams_inStep.bind fun params params' hparams => .pure ?_
  have hdocs := readDocs_unmarked found
  constructor
  · simp only [Representation.recast, hdocs.erased, hparams.erased]
  · rw [harmless_iff hitems isOpen, Representation.mk.injEq, hdocs.eq_iff, hparams.eq_iff]
    simp [ElementKind.children]
    tauto

theorem readRepresentation_inStep :
    InStep (SameUpTo (·.recast bare) (Harmless ⟨around, .representation, e⟩))
      (readRepresentation pos around e) (readRepresentation pos around e.unmarked) := by
  unfold readRepresentation
  simp only [get?_unmarked, requireId_unmarked, aliasId_unmarked]
  refine .bind_same _ fun _ => ?_
  split
  · rename_i href hhref
    have hclosed : Closed ⟨around, .representation, e⟩ :=
      .inr (.inr ⟨by simp [hhref], .inr (.inl rfl)⟩)
    exact .bind_same _ fun r => .pure (.of_eq rfl (harmless_of_closed hclosed))
  · rename_i hhref
    refine (readRepresentationBody_inStep around hhref).bind fun r r' hr => .pure ⟨?_, ?_⟩
    · exact congrArg RepresentationItem.inline hr.erased
    · rw [RepresentationItem.inline.injEq, hr.eq_iff]

theorem readRepresentations_inStep : InStep
    (SameUpTo (List.map (·.recast bare))
      (∀ e ∈ ofKind .representation found, Harmless ⟨around, .representation, e⟩))
    (readRepresentations pos around found)
    (readRepresentations pos around (found.map unmarkedItem)) := by
  unfold readRepresentations
  rw [ofKind_unmarked]
  exact mapM_inStep around (readRepresentation pos around) fun _ _ => readRepresentation_inStep

/-! ### Methods -/

theorem readRequest_inStep :
    InStep (SameUpTo (·.recast bare) (Harmless ⟨.method, .request, e⟩)) (readRequest pos e)
    (readRequest pos e.unmarked) := by
  have isOpen : ¬Closed ⟨.method, .request, e⟩ := not_closed_of_kind (by simp)
  unfold readRequest
  refine items_bind isOpen fun found hitems => ?_
  refine readParams_inStep.bind fun params params' hparams => ?_
  refine readRepresentations_inStep.bind fun bodies bodies' hbodies => .pure ?_
  have hdocs := readDocs_unmarked found
  constructor
  · simp only [Request.recast, hdocs.erased, hparams.erased, hbodies.erased]
  · rw [harmless_iff hitems isOpen, Request.mk.injEq, hdocs.eq_iff, hparams.eq_iff, hbodies.eq_iff]
    simp [ElementKind.children]
    tauto

theorem readResponse_inStep :
    InStep (SameUpTo (·.recast bare) (Harmless ⟨.method, .response, e⟩)) (readResponse pos e)
    (readResponse pos e.unmarked) := by
  have isOpen : ¬Closed ⟨.method, .response, e⟩ := not_closed_of_kind (by simp)
  unfold readResponse
  simp only [get?_unmarked]
  refine .bind_same _ fun codes => items_bind isOpen fun found hitems => ?_
  refine readParams_inStep.bind fun params params' hparams => ?_
  refine readRepresentations_inStep.bind fun bodies bodies' hbodies => .pure ?_
  have hdocs := readDocs_unmarked found
  constructor
  · simp only [Response.recast, hdocs.erased, hparams.erased, hbodies.erased]
  · rw [harmless_iff hitems isOpen, Response.mk.injEq, hdocs.eq_iff, hparams.eq_iff, hbodies.eq_iff]
    simp [ElementKind.children]
    tauto

/-- Marks do not change whether there is a second request. -/
theorem readOnlyRequest_inStep : ∀ es : List Element,
    InStep (SameUpTo (Option.map (·.recast bare)) (∀ e ∈ es, Harmless ⟨.method, .request, e⟩))
      (readOnlyRequest pos es) (readOnlyRequest pos (es.map Element.unmarked))
  | [] => .pure (.of_eq rfl (by simp))
  | [e] => by
    refine readRequest_inStep.map fun r r' hr => ⟨congrArg some hr.erased, ?_⟩
    rw [Option.some.injEq, hr.eq_iff, List.forall_mem_singleton]
  | _ :: _ :: _ => .throw _

theorem readMethodBody_inStep (isOpen : ¬Closed ⟨around, .method, e⟩) :
    InStep (SameUpTo (·.recast bare) (Harmless ⟨around, .method, e⟩)) (readMethodBody pos e)
      (readMethodBody pos e.unmarked) := by
  unfold readMethodBody
  simp only [get?_unmarked, required_unmarked]
  refine .bind_same _ fun name => items_bind isOpen fun found hitems => ?_
  rw [ofKind_unmarked, ofKind_unmarked]
  refine (readOnlyRequest_inStep _).bind fun request request' hrequest => ?_
  refine (mapM_inStep .method (readResponse pos) fun _ _ => readResponse_inStep).bind
    fun responses responses' hresponses => .pure ?_
  have hdocs := readDocs_unmarked found
  constructor
  · simp only [Method.recast, hdocs.erased, hrequest.erased, hresponses.erased]
  · rw [harmless_iff hitems isOpen, Method.mk.injEq, hdocs.eq_iff,
      hrequest.eq_iff, hresponses.eq_iff]
    simp [ElementKind.children]
    tauto

theorem readMethod_inStep (haround : around ≠ .application) :
    InStep (SameUpTo (·.recast bare) (Harmless ⟨around, .method, e⟩)) (readMethod pos e)
      (readMethod pos e.unmarked) := by
  unfold readMethod
  simp only [get?_unmarked, insideMethod_unmarked]
  split
  · rename_i href hhref
    have hclosed : Closed ⟨around, .method, e⟩ :=
      .inr (.inr ⟨by simp [hhref], .inr (.inr ⟨rfl, haround⟩)⟩)
    exact .bind_same _ fun r => .pure (.of_eq rfl (harmless_of_closed hclosed))
  · rename_i hhref
    have isOpen : ¬Closed ⟨around, .method, e⟩ := not_closed_of_href hhref (by simp)
    refine (readMethodBody_inStep isOpen).bind fun m m' hm => .pure ⟨?_, ?_⟩
    · exact congrArg MethodItem.inline hm.erased
    · rw [MethodItem.inline.injEq, hm.eq_iff]

theorem readTopMethod_inStep :
    InStep (SameUpTo (·.recast bare) (Harmless ⟨.application, .method, e⟩))
    (readTopMethod pos e) (readTopMethod pos e.unmarked) := by
  have isOpen : ¬Closed ⟨.application, .method, e⟩ := by simp [Closed, IsReference]
  unfold readTopMethod
  simp only [insideMethod_unmarked, requireId_unmarked]
  exact .bind_same _ fun _ => readMethodBody_inStep isOpen

/-- Methods that are the same but for documentation have the same identifiers. -/
theorem methodIds_of_erased {methods methods' : List MethodItem}
    (h : methods'.map (·.recast bare) = methods.map (·.recast bare)) :
    methods'.filterMap methodId? = methods.filterMap methodId? := by
  rw [← methodIds_recast bare methods', h, methodIds_recast]

/-- Marks can change the documentation of methods, but not whether their identifiers differ. -/
theorem readMethods_inStep (around : ElementKind) (haround : around ≠ .application) : InStep
    (SameUpTo (List.map (·.recast bare))
      (∀ e ∈ ofKind .method found, Harmless ⟨around, .method, e⟩))
    (readMethods pos found) (readMethods pos (found.map unmarkedItem)) := by
  unfold readMethods
  rw [ofKind_unmarked]
  refine (mapM_inStep around (readMethod pos) fun _ _ => readMethod_inStep haround).bind
    fun methods methods' hmethods => ?_
  rw [methodIds_of_erased hmethods.erased]
  exact .bind_same _ fun _ => .pure hmethods

/-! ### Resources -/

/-- Whether an element is an item does not depend on the marks in it. -/
theorem itemOf?_unmarked (tag : Xml.Tag) (inside : List Xml.Node) :
    itemOf? (.element tag (Xml.withoutMarksList inside)) =
      (itemOf? (.element tag inside)).map unmarkedItem := by
  rw [itemOf?, itemOf?]
  split
  · rfl
  · split
    · rfl
    · rw [Option.map_map]
      rfl

/-- A content without its marks has the same items, each without its marks. -/
theorem filterMap_unmarked : ∀ content : List Xml.Node,
    (Xml.withoutMarksList content).filterMap itemOf? = (content.filterMap itemOf?).map unmarkedItem
  | [] => rfl
  | .element tag inside :: rest => by
    rw [Xml.withoutMarksList_element, List.filterMap_cons, List.filterMap_cons, itemOf?_unmarked,
      filterMap_unmarked rest]
    cases itemOf? (.element tag inside) <;> rfl
  | .text t :: rest => by
    have hjoin : (Xml.joinText t (Xml.withoutMarksList rest)).filterMap itemOf? =
        (Xml.withoutMarksList rest).filterMap itemOf? := by
      unfold Xml.joinText
      split
      · rename_i heq
        rw [heq]
        rfl
      · rfl
    rw [Xml.withoutMarksList_text, hjoin, filterMap_unmarked rest]
    rfl
  | .comment t :: rest => by
    rw [Xml.withoutMarksList_comment, filterMap_unmarked rest]
    rfl
  | .instruction t :: rest => by
    rw [Xml.withoutMarksList_instruction, filterMap_unmarked rest]
    rfl

/-- The children of a kind are the same without marks, but for those in them. -/
theorem childrenOf_unmarked (k : ElementKind) (content : List Xml.Node) :
    childrenOf k (Xml.withoutMarksList content) = (childrenOf k content).map Element.unmarked := by
  rw [childrenOf, filterMap_unmarked, ofKind_unmarked, childrenOf]

/-- Params that are the same but for documentation declare the same placeholders. -/
theorem templateNames_of_erased {params params' : List ParamItem}
    (h : params'.map (·.recast bare) = params.map (·.recast bare)) :
    templateNames params' = templateNames params := by
  rw [← templateNames_recast bare params', h, templateNames_recast]

/-- Which placeholder of a path is not declared does not depend on documentation. -/
theorem placeholder_of_erased {params params' : List ParamItem} {methods methods' : List MethodItem}
    (hparams : params'.map (·.recast bare) = params.map (·.recast bare))
    (hmethods : methods'.map (·.recast bare) = methods.map (·.recast bare)) (declared : List String)
    (path : Option String) :
    undeclaredPlaceholder? declared path params' methods' =
      undeclaredPlaceholder? declared path params methods := by
  rw [← undeclaredPlaceholder?_recast bare, hparams, hmethods, undeclaredPlaceholder?_recast]

/-- A resource with marks and without, with any way to read those below it. -/
theorem readResource_inStep {inherited : List String}
    {below below' : Position → List String → Reading (List Resource)}
    (hbelow : ∀ inside declared, InStep
      (SameUpTo (List.map (·.recast bare))
        (∀ e' ∈ childrenOf .resource e.content, Harmless ⟨.resource, .resource, e'⟩))
      (below inside declared) (below' inside declared)) :
    InStep (SameUpTo (·.recast bare) (Harmless ⟨around, .resource, e⟩))
      (readResource pos inherited e below) (readResource pos inherited e.unmarked below') := by
  have isOpen : ¬Closed ⟨around, .resource, e⟩ := not_closed_of_kind (by simp)
  unfold readResource
  simp only [get?_unmarked]
  refine items_bind isOpen fun found hitems => ?_
  refine readParams_inStep.bind fun params params' hparams => ?_
  refine (readMethods_inStep .resource (by decide)).bind fun methods methods' hmethods => ?_
  simp only [templateNames_of_erased hparams.erased,
    placeholder_of_erased hparams.erased hmethods.erased]
  refine .bind_same _ fun types => (hbelow _ _).bind fun resources resources' hresources => ?_
  refine .bind_same _ fun _ => .pure ?_
  have hdocs := readDocs_unmarked found
  constructor
  · simp only [Resource.recast, recastList_eq, hdocs.erased, hparams.erased,
      hmethods.erased, hresources.erased]
  · rw [harmless_iff hitems isOpen, Resource.mk.injEq, hdocs.eq_iff,
      hparams.eq_iff, hmethods.eq_iff, hresources.eq_iff, ← hitems.children]
    simp [ElementKind.children]
    tauto

/-- The resources among some content with marks and without. -/
theorem readResources_inStep (around : ElementKind) {pos : Position} {inherited : List String}
    (content : List Xml.Node) : InStep
    (SameUpTo (List.map (·.recast bare))
      (∀ e ∈ childrenOf .resource content, Harmless ⟨around, .resource, e⟩))
    (readResources pos inherited content)
    (readResources pos inherited (Xml.withoutMarksList content)) := by
  rw [readResources_eq_mapM, readResources_eq_mapM, childrenOf_unmarked]
  refine mapM_inStep around (readResourceAt pos inherited) fun e he => ?_
  have hnode : e.node ∈ content := ((mem_childrenOf (by decide)).1 he).1
  exact readResource_inStep fun inside declared => readResources_inStep .resource e.content
termination_by sizeOf content
decreasing_by
  have hlt := List.sizeOf_lt_of_mem hnode
  simp only [Element.node, Xml.Node.element.sizeOf_spec] at hlt
  omega

theorem readResourceType_inStep :
    InStep (SameUpTo (·.recast bare) (Harmless ⟨.application, .resourceType, e⟩))
    (readResourceType pos e) (readResourceType pos e.unmarked) := by
  have isOpen : ¬Closed ⟨.application, .resourceType, e⟩ := not_closed_of_kind (by simp)
  unfold readResourceType
  simp only [get?_unmarked, required_unmarked]
  refine .bind_same _ fun id => items_bind isOpen fun found hitems => ?_
  refine readParams_inStep.bind fun params params' hparams => ?_
  refine (readMethods_inStep .resourceType (by decide)).bind fun methods methods' hmethods => ?_
  rw [templateNames_of_erased hparams.erased]
  refine (readResources_inStep .resourceType e.content).bind fun resources resources' hresources =>
    .pure ?_
  have hdocs := readDocs_unmarked found
  constructor
  · simp only [ResourceType.recast, recastList_eq, hdocs.erased, hparams.erased,
      hmethods.erased, hresources.erased]
  · rw [harmless_iff hitems isOpen, ResourceType.mk.injEq, hdocs.eq_iff,
      hparams.eq_iff, hmethods.eq_iff, hresources.eq_iff, ← hitems.children]
    simp [ElementKind.children]
    tauto

/-- The documentation of a group of resources is left out. -/
theorem readGroup_inStep :
    InStep (SameUpTo (·.recast bare) (Harmless ⟨.application, .resources, e⟩))
    (readGroup pos e) (readGroup pos e.unmarked) := by
  have isOpen : ¬Closed ⟨.application, .resources, e⟩ := not_closed_of_kind (by simp)
  unfold readGroup
  simp only [get?_unmarked]
  refine items_bind isOpen fun found hitems => ?_
  refine (readResources_inStep .resources e.content).bind fun resources resources' hresources =>
    .pure ?_
  constructor
  · simp only [ResourceGroup.recast, recastList_eq, hresources.erased]
  · rw [harmless_iff hitems isOpen, ResourceGroup.mk.injEq, hresources.eq_iff, ← hitems.children]
    simp [ElementKind.children]

/-- The documentation of grammars is left out, and so is that of what they include. -/
theorem readGrammars_inStep :
    InStep (SameUpTo id (Harmless ⟨.application, .grammars, e⟩)) (readGrammars pos e)
    (readGrammars pos e.unmarked) := by
  have isOpen : ¬Closed ⟨.application, .grammars, e⟩ := not_closed_of_kind (by simp)
  unfold readGrammars
  refine items_bind isOpen fun found hitems => ?_
  have hharmless : Harmless ⟨.application, .grammars, e⟩ := by
    rw [harmless_iff hitems isOpen]
    refine ⟨fun hkeeps => absurd rfl hkeeps.1, fun k hk hdoc d _ => harmless_of_closed ?_⟩
    exact .inr (.inl (by simpa [ElementKind.children, hdoc] using hk))
  rw [ofKind_unmarked]
  have hread : ((ofKind .include found).map Element.unmarked).mapM
      (fun child => required (pos.enter "grammars") child .include "href") =
        (ofKind .include found).mapM fun child =>
          required (pos.enter "grammars") child .include "href" :=
    List.mapM_map
  rw [hread]
  exact (InStep.of_eq rfl).mono fun hrefs hrefs' h => .of_eq h.symm hharmless

/-! ## Descriptions -/

/-- Descriptions that are the same but for documentation have the same identifiers at the top. -/
theorem topIds_of_erased {app app' : Application} (h : app'.recast bare = app.recast bare)
    (k : ElementKind) : app'.topIds k = app.topIds k := by
  have hrecast : ∀ app : Application, (app.recast bare).topIds k = app.topIds k := by
    intro app
    cases k <;> simp only [Application.topIds, Application.recast, List.map_map] <;>
      exact List.map_congr_left fun item _ => by first | rfl | cases item <;> rfl
  rw [← hrecast app', h, hrecast]

/-- A description with one more definition: `put` adds what is read if its identifier is new. -/
theorem addDefinition_inStep {T : Type} {erase : T → T} {P Q : Prop}
    {app app' : Application} {k : ElementKind} {read read' : Reading T} {id : T → Option String}
    (happ : SameUpTo (·.recast bare) P app app') (hread : InStep (SameUpTo erase Q) read read')
    (put : Application → T → Application) (hid : ∀ t, id (erase t) = id t)
    (hrecast : ∀ app t, (put app t).recast bare = put (app.recast bare) (erase t))
    (hinj : ∀ t t', put app' t' = put app t ↔ app' = app ∧ t' = t) :
    InStep (SameUpTo (·.recast bare) (P ∧ Q))
      (do let t ← read; checkNew pos k (id t) (app.topIds k); return put app t)
      (do let t ← read'; checkNew pos k (id t) (app'.topIds k); return put app' t) := by
  refine hread.bind fun t t' ht => ?_
  have hids : id t' = id t := by rw [← hid t', ht.erased, hid]
  rw [hids, topIds_of_erased happ.erased]
  exact .bind_same _ fun _ => .pure (happ.put ht put hrecast (hinj t t'))

/-- Marks in an item can change its documentation only. -/
theorem addItem_inStep {app app' : Application} {P : Prop} {k : ElementKind}
    (happ : SameUpTo (·.recast bare) P app app') (hk : k ∈ ElementKind.application.children) :
    InStep (SameUpTo (·.recast bare) (P ∧ Harmless ⟨.application, k, e⟩)) (addItem pos app (k, e))
      (addItem pos app' (k, e.unmarked)) := by
  simp only [ElementKind.children, List.mem_cons, List.not_mem_nil, or_false] at hk
  rcases hk with rfl | rfl | rfl | rfl | rfl | rfl | rfl
  · exact .pure (happ.congr
      (by simp [harmless_of_closed (s := ⟨.application, .doc, e⟩) (.inl rfl)]))
  · refine readGrammars_inStep.bind fun hrefs hrefs' h => .pure ?_
    obtain rfl : hrefs' = hrefs := h.erased
    exact happ.put h (fun app hrefs => { app with grammars := app.grammars ++ hrefs })
      (fun _ _ => rfl) (by cases app; cases app'; simp)
  · refine readGroup_inStep.bind fun g g' hg => .pure ?_
    exact happ.put hg (fun app g => { app with resources := app.resources ++ [g] })
      (fun _ _ => by simp [Application.recast]) (by cases app; cases app'; simp; tauto)
  · exact addDefinition_inStep happ readResourceType_inStep
      (fun app t => { app with resourceTypes := app.resourceTypes ++ [t] }) (fun _ => rfl)
      (fun _ _ => by simp [Application.recast]) fun _ _ => by cases app; cases app'; simp; tauto
  · exact addDefinition_inStep happ readTopMethod_inStep
      (fun app m => { app with methods := app.methods ++ [m] })
      (fun _ => rfl) (fun _ _ => by simp [Application.recast])
      fun _ _ => by cases app; cases app'; simp; tauto
  · exact addDefinition_inStep happ readRepresentation_inStep
      (fun app r => { app with representations := app.representations ++ [r] })
        (RepresentationItem.recast_id bare)
      (fun _ _ => by simp [Application.recast]) fun _ _ => by cases app; cases app'; simp; tauto
  · exact addDefinition_inStep happ readParam_inStep
      (fun app p => { app with params := app.params ++ [p] })
      (ParamItem.recast_id bare) (fun _ _ => by simp [Application.recast])
      fun _ _ => by cases app; cases app'; simp; tauto

/-- Marks in a document can change documentation only, item by item. -/
theorem addItems_inStep :
    ∀ {found : List (ElementKind × Element)} {app app' : Application} {P : Prop},
    (∀ x ∈ found, x.1 ∈ ElementKind.application.children) → SameUpTo (·.recast bare) P app app' →
      InStep (SameUpTo (·.recast bare) (P ∧ ∀ x ∈ found, Harmless ⟨.application, x.1, x.2⟩))
        (found.foldlM (addItem pos) app) ((found.map unmarkedItem).foldlM (addItem pos) app')
  | [], _, _, _, _, happ => .pure (happ.congr (by simp))
  | x :: found, app, app', P, hkinds, happ => by
    obtain ⟨hfirst, hrest⟩ := List.forall_mem_cons.1 hkinds
    rw [List.map_cons, List.foldlM_cons, List.foldlM_cons]
    refine (addItem_inStep happ hfirst).bind fun next next' hnext => ?_
    exact (addItems_inStep hrest hnext).mono fun _ _ h => h.congr (by simp [and_assoc])

/-- A description with marks and without, from the root element on. -/
theorem readApplication_inStep {base : String} {strict : Bool} :
    InStep (SameUpTo (·.recast bare) (top e).Harmless) (readApplication base strict e.node)
      (readApplication base strict e.unmarked.node) := by
  have isOpen : ¬(top e).Closed := not_closed_of_kind (by simp [top])
  simp only [Element.node, Element.unmarked, readApplication]
  split
  · refine InStep.bind (R := fun _ _ => False) (.throw _) fun _ _ hfalse => hfalse.elim
  · refine items_bind isOpen fun found hitems => ?_
    have hkinds : ∀ x ∈ found, x.1 ∈ ElementKind.application.children := by
      rintro ⟨k, d⟩ hx
      by_cases hdoc : k = .doc
      · rw [hdoc]
        exact doc_mem_children (by decide)
      · exact hitems.orderly.allowed k d ((hitems.mem_iff k d hdoc).1 hx)
    have hdocs := readDocs_unmarked found
    have hempty : SameUpTo (Application.recast bare) (∀ d ∈ ofKind .doc found, d.HarmlessMarks)
        ⟨base, readDocs found, [], [], [], [], [], []⟩
        ⟨base, readDocs (found.map unmarkedItem), [], [], [], [], [], []⟩ := by
      constructor
      · simp only [Application.recast, hdocs.erased]
      · simp [hdocs.eq_iff]
    refine (addItems_inStep hkinds hempty).mono fun app app' h => h.congr ?_
    rw [harmless_iff hitems isOpen]
    constructor
    · rintro ⟨hown, hbelow⟩
      exact ⟨fun _ => hown, fun k _ _ d hd => hbelow (k, d) (mem_ofKind.1 hd)⟩
    · rintro ⟨hown, hbelow⟩
      refine ⟨hown (by simp [top]), fun x hx => ?_⟩
      by_cases hdoc : x.1 = .doc
      · exact harmless_of_closed (.inl hdoc)
      · exact hbelow x.1 (hkinds x hx) hdoc x.2 (mem_ofKind.2 hx)

end Reader

/-- The identifiers of a document are checked with the same result whatever its documentation
holds. -/
theorem Index.agree_of_erased {app app' : Application} (h : app'.recast bare = app.recast bare) :
    Result.Agree (fun _ _ => True) (Index.ofApplication app) (Index.ofApplication app') := by
  have hplaces : placesOf app.entries = placesOf app'.entries := by
    rw [← app.entries_recast bare, ← h, app'.entries_recast]
  have hrepeated := repeatedEntry?_of_placesOf [] hplaces
  unfold Index.ofApplication
  split <;> split
  · exact .ok trivial
  · rename_i hnone e hsome
    rw [hnone, hsome] at hrepeated
    cases hrepeated
  · rename_i e hsome hnone
    rw [hnone, hsome] at hrepeated
    cases hrepeated
  · rename_i e he e' he'
    rw [he, he'] at hrepeated
    obtain ⟨hid, hpath⟩ := Prod.mk.inj (Option.some.inj hrepeated)
    rw [hid, hpath]
    exact .error _

/-- The comments and instructions in a document are harmless where its documentation is read. -/
def Xml.Node.HarmlessMarks (root : Xml.Node) : Prop :=
  ∀ e : Element, e.node = root → (Site.top e).Harmless

/-- Comments and instructions make no difference but to the content of documentation. -/
theorem marks_harmless_iff (base : String) (strict : Bool) (root : Xml.Node) :
    InStep (SameUpTo (·.recast bare) root.HarmlessMarks) (readDescription base strict root)
      (readDescription base strict root.withoutMarks) := by
  have hread : InStep (SameUpTo (·.recast bare) root.HarmlessMarks)
      (readApplication base strict root) (readApplication base strict root.withoutMarks) := by
    cases root with
    | element tag content =>
      have hroot : (Site.top ⟨tag, content⟩).Harmless ↔
          (Xml.Node.element tag content).HarmlessMarks := by
        refine ⟨fun h e he => ?_, fun h => h ⟨tag, content⟩ rfl⟩
        obtain rfl : e = ⟨tag, content⟩ := Element.node_inj he
        exact h
      rw [Xml.Node.withoutMarks]
      exact (readApplication_inStep (e := ⟨tag, content⟩)).mono fun _ _ h => h.congr hroot
    | text s | comment s | instruction s => exact .throw _
  unfold readDescription
  refine hread.bind fun app app' happ => ?_
  exact (InStep.lift (Index.agree_of_erased happ.erased)).bind fun _ _ _ => .pure happ

end Wadl
