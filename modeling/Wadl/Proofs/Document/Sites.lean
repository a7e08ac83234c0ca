import Wadl.Proofs.Document.Children
import Wadl.Proofs.Ensures

/-!
# Which elements reading looks at

Reading looks at the elements of a document from the root on (`Site.Below`), but not into
documentation, into inclusions and into references (`Site.Closed`). At each element it looks at, it
wants the references to be URIs and, if it looks into the element, the children to be among those
that may stand there (`Site.Passes`). Each reader ensures this for all that is below its element,
and fails otherwise only with an error that has nothing to do with it, or with the fault of an
element below (`Site.Blamed`); `readDescription_ensures` says so of whole documents.
-/

namespace Wadl

open Reader

namespace DocumentError

/-- An error is one of those that say what is wrong with a description. -/
def IsOwn : DocumentError → Bool
  | malformed .. | missingAttribute .. | duplicateId .. => true
  | badUri _ | unknownCharset | multibyteCharset => false

/-- An error says that an element stands where it may not. -/
def IsNesting : DocumentError → Bool
  | malformed (.misplaced ..) _ | malformed (.unrecognized _) _ => true
  | _ => false

/-- An error is about a single attribute, or about the root. -/
def IsPlain : DocumentError → Bool
  | malformed (.misplaced ..) _ | malformed (.unrecognized _) _ => false
  | malformed .. | missingAttribute .. => true
  | _ => false

/-- An error says that an identifier stands twice in the document. -/
def IsWide : DocumentError → Bool
  | duplicateId _ .id _ | duplicateId _ (.topLevel _) _ => true
  | _ => false

/-- Plain errors are own errors that say nothing of nesting. -/
theorem isOwn_of_isPlain {e : DocumentError} (h : e.IsPlain = true) :
    e.IsOwn = true ∧ e.IsNesting = false := by
  cases e with
  | malformed fault path => cases fault <;> first | exact ⟨rfl, rfl⟩ | cases h
  | missingAttribute element attr path => exact ⟨rfl, rfl⟩
  | duplicateId | badUri | unknownCharset | multibyteCharset => cases h

/-- Errors about the whole document are own errors that say nothing of nesting. -/
theorem isOwn_of_isWide {e : DocumentError} (h : e.IsWide = true) :
    e.IsOwn = true ∧ e.IsNesting = false := by
  unfold IsWide at h
  split at h
  · exact ⟨rfl, rfl⟩
  · exact ⟨rfl, rfl⟩
  · cases h

end DocumentError

/-! ## Sites -/

/-- An element with its kind, and with the kind of the element around it. -/
structure Site where
  around : ElementKind
  kind : ElementKind
  element : Element

namespace Site

/-- The site of the root of a document. -/
def top (e : Element) : Site := ⟨.application, .application, e⟩

/-- An element of a kind stands directly in a site. -/
def Has (s : Site) (k : ElementKind) (e : Element) : Prop :=
  e.node ∈ s.element.content ∧ k.IsTag e.tag

/-- An element names a definition that stands elsewhere. -/
def IsReference (s : Site) : Prop :=
  (s.element.get? "href").isSome = true ∧
    (s.kind = .param ∨ s.kind = .representation ∨ s.kind = .method ∧ s.around ≠ .application)

/-- Reading does not look into an element for elements: documentation is kept as it is, and
inclusions and references are known by their attributes. -/
def Closed (s : Site) : Prop := s.kind = .doc ∨ s.kind = .include ∨ s.IsReference

/-- The references in the attributes of an element. -/
def hrefs (s : Site) : List String :=
  match s.kind with
  | .param | .representation => (s.element.get? "href").toList
  | .method => if s.around = .application then [] else (s.element.get? "href").toList
  | .resource => wordsOf ((s.element.get? "type").getD "")
  | .link => ((s.element.get? "resource_type").filter (!·.isEmpty)).toList
  | _ => []

/-- A site is another, or below it with nothing closed around. -/
inductive Below : Site → Site → Prop where
  | here {s : Site} : Below s s
  | inside {s t : Site} {k : ElementKind} {e : Element} (isOpen : ¬s.Closed) (has : s.Has k e)
      (below : Below ⟨s.kind, k, e⟩ t) : Below s t

/-- In an element stands only what may stand there, and if reading is strict, nothing that
descriptions do not have. -/
structure Orderly (strict : Bool) (s : Site) : Prop where
  allowed : ∀ k e, s.Has k e → k ∈ s.kind.children
  known : strict = true → ∀ e : Element, e.node ∈ s.element.content → e.tag.name.isWadl = true →
    ∃ k : ElementKind, k.IsTag e.tag

/-- What reading wants of an element. -/
structure Passes (base : String) (strict : Bool) (s : Site) : Prop where
  orderly : ¬s.Closed → s.Orderly strict
  joined : ∀ href ∈ s.hrefs, ∃ uri, joinUri base href = .ok uri

/-- What reading wants of the references and the nesting in an element and in all below it. -/
def AllPass (base : String) (strict : Bool) (s : Site) : Prop :=
  ∀ t, s.Below t → t.Passes base strict

/-- What reading says of an element in which it does not find what it wants. -/
inductive Fault (base : String) (strict : Bool) (s : Site) : DocumentError → Prop where
  | badUri {href : String} {error : UriError} (mem : href ∈ s.hrefs)
      (join : joinUri base href = .error error) : Fault base strict s (.badUri error)
  | misplaced {k : ElementKind} {e : Element} {path : List String}
      (isOpen : ¬s.Closed) (has : s.Has k e) (forbidden : k ∉ s.kind.children) :
      Fault base strict s (.malformed (.misplaced k.word s.kind.word) path)
  | unrecognized {e : Element} {path : List String} (isStrict : strict = true) (isOpen : ¬s.Closed)
      (mem : e.node ∈ s.element.content) (isWadl : e.tag.name.isWadl = true)
      (unknown : ∀ k : ElementKind, ¬k.IsTag e.tag) :
      Fault base strict s (.malformed (.unrecognized e.tag.name.label) path)

/-- An error has nothing to do with references and nesting, or says what is wrong with an element
below. -/
def Blamed (base : String) (strict : Bool) (s : Site) (e : DocumentError) : Prop :=
  e.IsOwn = true ∧ e.IsNesting = false ∨ ∃ t, s.Below t ∧ t.Fault base strict e

/-! ### Names -/

/-- A name stands twice among those of one sort that stand directly in an element. -/
inductive Doubles (s : Site) : UniqueScope → String → Prop where
  | paramName {name : String}
      (holds : s.kind ∈ [.resource, .resourceType, .request, .response, .representation])
      (twice : List.Duplicate name (paramNamesIn s.element.content)) : Doubles s .paramName name
  | optionValue {value : String} (holds : s.kind = .param)
      (twice : List.Duplicate value (optionValuesIn s.element.content)) :
        Doubles s .optionValue value
  | methodId {id : String} (holds : s.kind ∈ [.resource, .resourceType])
      (twice : List.Duplicate id (methodIdsIn s.element.content)) : Doubles s .methodId id

/-- In an element no name stands twice. -/
def Distinct (s : Site) : Prop := ∀ scope name, ¬s.Doubles scope name

/-- What reading wants of an element and of all below it. -/
def AllChecked (base : String) (strict : Bool) (s : Site) : Prop :=
  ∀ t, s.Below t → t.Passes base strict ∧ (¬t.Closed → t.Distinct)

/-- What reading says of an element in which it does not find what it wants, names included. -/
inductive Flaw (base : String) (strict : Bool) (s : Site) : DocumentError → Prop where
  | fault {error : DocumentError} (fault : s.Fault base strict error) : Flaw base strict s error
  | doubled {scope : UniqueScope} {name : String} {path : List String} (isOpen : ¬s.Closed)
      (doubles : s.Doubles scope name) : Flaw base strict s (.duplicateId name scope path)

/-- An error is about a single attribute, or says what is wrong with an element below. -/
def Flawed (base : String) (strict : Bool) (s : Site) (e : DocumentError) : Prop :=
  e.IsPlain = true ∨ ∃ t, s.Below t ∧ t.Flaw base strict e

variable {base : String} {strict : Bool} {s : Site}

/-- Where everything is checked, all references join and all children are in place. -/
theorem AllChecked.allPass (h : s.AllChecked base strict) : s.AllPass base strict :=
  fun t ht => (h t ht).1

/-- What is doubled inside an element is no fault of the document as a whole. -/
theorem Doubles.not_isWide {scope : UniqueScope} {name : String} (h : s.Doubles scope name)
    (path : List String) : (DocumentError.duplicateId name scope path).IsWide = false := by
  cases h <;> rfl

/-- What says that something is wrong with an element says nothing of the document as a whole. -/
theorem Flawed.not_isWide {error : DocumentError} (h : s.Flawed base strict error) :
    error.IsWide = false := by
  rcases h with hplain | ⟨t, -, hflaw⟩
  · cases error with
    | duplicateId id scope path => cases hplain
    | _ => rfl
  · cases hflaw with
    | fault fault => cases fault <;> rfl
    | doubled _ doubles => exact doubles.not_isWide _

/-- A flaw is to blame on an element at or below the site. -/
theorem Flawed.blamed {error : DocumentError} (h : s.Flawed base strict error) :
    s.Blamed base strict error := by
  rcases h with hplain | ⟨t, ht, hflaw⟩
  · exact .inl (DocumentError.isOwn_of_isPlain hplain)
  · cases hflaw with
    | fault fault => exact .inr ⟨t, ht, fault⟩
    | doubled _ doubles => exact .inl ⟨rfl, rfl⟩

/-- A flaw of a child is one of the element, if reading looks into it. -/
theorem Flawed.of_has {k : ElementKind} {e : Element} {error : DocumentError} (isOpen : ¬s.Closed)
    (has : s.Has k e) (h : Flawed base strict ⟨s.kind, k, e⟩ error) :
    s.Flawed base strict error := by
  rcases h with h | ⟨t, ht, hflaw⟩
  · exact .inl h
  · exact .inr ⟨t, .inside isOpen has ht, hflaw⟩

/-- Of an element that reading does not look into, only the references are checked. -/
theorem allChecked_of_closed (h : s.Closed)
    (hjoined : ∀ href ∈ s.hrefs, ∃ uri, joinUri base href = .ok uri) :
    s.AllChecked base strict := by
  rintro t (_ | ⟨isOpen, -, -⟩)
  · exact ⟨⟨fun isOpen => absurd h isOpen, hjoined⟩, fun isOpen => absurd h isOpen⟩
  · exact absurd h isOpen

/-- An open element is checked if it is in order itself and its children are checked. -/
theorem allChecked_of_has (horderly : s.Orderly strict)
    (hjoined : ∀ href ∈ s.hrefs, ∃ uri, joinUri base href = .ok uri) (hdistinct : s.Distinct)
    (h : ∀ k ∈ s.kind.children, ∀ e, s.Has k e → AllChecked base strict ⟨s.kind, k, e⟩) :
    s.AllChecked base strict := by
  rintro t (_ | ⟨-, has, below⟩)
  · exact ⟨⟨fun _ => horderly, hjoined⟩, fun _ => hdistinct⟩
  · exact h _ (horderly.allowed _ _ has) _ has t below

/-- In documentation there is nothing to check. -/
theorem allChecked_doc {around : ElementKind} {e : Element} :
    AllChecked base strict ⟨around, .doc, e⟩ :=
  allChecked_of_closed (Or.inl rfl) fun _ hhref => by cases hhref

/-- In elements of most kinds no names have to differ. -/
theorem distinct_of_kind
    (h : s.kind ∉ [.param, .resource, .resourceType, .request, .response, .representation]) :
    s.Distinct := by
  rintro scope name (⟨holds, -⟩ | ⟨holds, -⟩ | ⟨holds, -⟩) <;> refine h ?_ <;>
    simp only [List.mem_cons, List.not_mem_nil, or_false] at holds ⊢ <;> tauto

/-- The names in an element with params, but without options and methods, differ if those of the
params do. -/
theorem distinct_of_params (h : s.kind ∈ [.request, .response, .representation])
    (hnames : (paramNamesIn s.element.content).Nodup) : s.Distinct := by
  rintro scope name (⟨-, twice⟩ | ⟨holds, -⟩ | ⟨holds, -⟩)
  · exact List.nodup_iff_forall_not_duplicate.1 hnames name twice
  · rw [holds] at h
    exact absurd h (by decide)
  · simp only [List.mem_cons, List.not_mem_nil, or_false] at holds h
    rcases holds with holds | holds <;> simp [holds] at h

/-- The names in a resource or a resource type differ if those of the params and of the methods
do. -/
theorem distinct_of_methods (h : s.kind ∈ [.resource, .resourceType])
    (hnames : (paramNamesIn s.element.content).Nodup)
    (hids : (methodIdsIn s.element.content).Nodup) : s.Distinct := by
  rintro scope name (⟨-, twice⟩ | ⟨holds, -⟩ | ⟨-, twice⟩)
  · exact List.nodup_iff_forall_not_duplicate.1 hnames name twice
  · rw [holds] at h
    exact absurd h (by decide)
  · exact List.nodup_iff_forall_not_duplicate.1 hids name twice

end Site

/-! ## Readers -/

namespace Reader

open Site

variable {pos : Position} {s : Site} {around : ElementKind} {e : Element}
    {found : List (ElementKind × Element)}

/-- Errors about single attributes. -/
theorem ensures_throw {α : Type} {Q : α → Prop} {base : String} {strict : Bool}
    {error : DocumentError} (hplain : error.IsPlain = true) :
    Ensures (throw error : Reading α) Q (s.Flawed base strict) :=
  .throw (Or.inl hplain)

theorem doc_mem_children {k : ElementKind} (h : k ≠ .doc) : .doc ∈ k.children := by
  cases k <;> first | exact absurd rfl h | decide

/-- What the items of an element say about its content. -/
structure ItemsOf (strict : Bool) (s : Site) (found : List (ElementKind × Element)) : Prop where
  children : ∀ k, ofKind k found = childrenOf k s.element.content
  orderly : s.Orderly strict
  mem_iff : ∀ k e, k ≠ .doc → ((k, e) ∈ found ↔ s.Has k e)

/-- What reading wants of a child. -/
def Fits (strict : Bool) (s : Site) (e : Element) : Prop :=
  e.tag.name.isWadl = true → (∀ k : ElementKind, k.IsTag e.tag → k ∈ s.kind.children) ∧
    (strict = true → ∃ k : ElementKind, k.IsTag e.tag)

/-- An element of a kind that may stand here fits. -/
theorem fits_of_isTag {strict : Bool} {k : ElementKind} (htag : k.IsTag e.tag)
    (h : k ∈ s.kind.children) : Fits strict s e :=
  fun _ => ⟨fun _ htag' => htag'.unique htag ▸ h, fun _ => ⟨k, htag⟩⟩

/-- Collecting items ensures that each element in the content fits. -/
theorem ensures_fits (isOpen : ¬s.Closed) :
    ∀ {content : List Xml.Node}, content ⊆ s.element.content →
    Ensures (items pos s.kind content) (fun _ => ∀ e : Element, e.node ∈ content →
      Fits pos.strict s e) (s.Flawed pos.base pos.strict)
  | [], _ => .pure (by simp)
  | .element tag inside :: rest, hsub => by
    obtain ⟨hmem, hrest⟩ := List.cons_subset.1 hsub
    have ih := ensures_fits isOpen hrest
    let e : Element := ⟨tag, inside⟩
    have hall : Fits pos.strict s e → (∀ e' : Element, e'.node ∈ rest → Fits pos.strict s e') →
        ∀ e' : Element, e'.node ∈ e.node :: rest → Fits pos.strict s e' := by
      intro he hrest e' he'
      rcases List.mem_cons.1 he' with heq | he'
      · rwa [Element.node_inj heq]
      · exact hrest e' he'
    simp only [items]
    split
    · rename_i hdoc
      refine ih.bind fun _ hrest => .pure (hall (fun hwadl => ?_) hrest)
      exact fits_of_isTag ⟨hdoc, hwadl⟩ (doc_mem_children fun hkind => isOpen (Or.inl hkind)) hwadl
    · split
      · rename_i hforeign
        refine (Ensures.modify _).bind fun _ _ =>
          ih.mono (fun _ hrest => hall (fun hwadl => ?_) hrest) fun _ h => h
        rw [hwadl] at hforeign
        cases hforeign
      · rename_i hwadl
        have hwadl : tag.name.isWadl = true := by simpa using hwadl
        split
        · rename_i kind hkind
          have htag : kind.IsTag tag := ⟨ElementKind.ofWord?_eq_some.1 hkind, hwadl⟩
          split
          · rename_i hallowed
            have hfits : Fits pos.strict s e :=
              fits_of_isTag htag (List.contains_iff_mem.1 hallowed)
            exact ih.bind fun _ hrest => .pure (hall hfits hrest)
          · rename_i hforbidden
            refine .throw (Or.inr ⟨s, .here, .fault ?_⟩)
            rw [htag.1]
            exact .misplaced (e := e) isOpen ⟨hmem, htag⟩ fun h =>
              hforbidden (List.contains_iff_mem.2 h)
        · rename_i hnone
          have hunknown : ∀ k : ElementKind, ¬k.IsTag tag := by
            intro k htag
            rw [ElementKind.ofWord?_eq_some.2 htag.1] at hnone
            cases hnone
          split
          · rename_i hstrict
            refine .throw (Or.inr ⟨s, .here, .fault ?_⟩)
            exact .unrecognized (e := e) hstrict isOpen hmem hwadl hunknown
          · rename_i hlenient
            refine (Ensures.modify _).bind fun _ _ =>
              ih.mono (fun _ hrest => hall (fun _ => ?_) hrest) fun _ h => h
            exact ⟨fun k htag => absurd htag (hunknown k), fun hstrict => absurd hstrict hlenient⟩
  | .text _ :: rest, hsub | .comment _ :: rest, hsub | .instruction _ :: rest, hsub => by
    have ih := ensures_fits isOpen (List.cons_subset.1 hsub).2
    simp only [items]
    exact ih.mono (fun _ hrest e he => hrest e (by simpa [Element.node] using he)) fun _ h => h

/-- The items of an element are found if what stands in it may stand there. -/
theorem items_ensures (isOpen : ¬s.Closed) :
    Ensures (items pos s.kind s.element.content) (ItemsOf pos.strict s)
      (s.Flawed pos.base pos.strict) := by
  have h : Ensures (items pos s.kind s.element.content)
      (fun _ => ∀ e : Element, e.node ∈ s.element.content → Fits pos.strict s e)
      (s.Flawed pos.base pos.strict) := ensures_fits isOpen (List.Subset.refl _)
  refine ⟨fun found hfound =>
    ⟨fun k => ?_, ⟨fun k e hhas => ?_, fun hstrict e he hwadl => ?_⟩, fun k e hkind => ?_⟩, h.fails⟩
  · rw [← filterMap_of_items hfound, childrenOf]
  · exact (h.yields found hfound e hhas.1 hhas.2.2).1 k hhas.2
  · exact (h.yields found hfound e he hwadl).2 hstrict
  · exact mem_items_iff hkind hfound

/-! ### Attributes -/

/-- An attribute that is missing is a plain error. -/
theorem required_ensures {kind : ElementKind} {attr : String} :
    Ensures (required pos e kind attr) (fun _ => True) (s.Flawed pos.base pos.strict) := by
  unfold required
  split
  · exact .pure trivial
  · exact ensures_throw rfl

theorem requireId_ensures {location kind : ElementKind} :
    Ensures (requireId pos location e kind) (fun _ => True) (s.Flawed pos.base pos.strict) := by
  unfold requireId
  split
  · exact required_ensures.map fun _ _ => trivial
  · exact .pure trivial

theorem flag_ensures {attr : String} :
    Ensures (flag pos e attr) (fun _ => True) (s.Flawed pos.base pos.strict) := by
  unfold flag
  split
  · exact .pure trivial
  · split
    · exact .pure trivial
    · split
      · exact .pure trivial
      · exact ensures_throw rfl

/-- A check with a plain error says nothing of references and nesting. -/
theorem refuse_ensures {α : Type} {x : Option α} {error : α → DocumentError}
    (hplain : ∀ a, (error a).IsPlain = true) :
    Ensures (refuse x error) (fun _ => True) (s.Flawed pos.base pos.strict) := by
  unfold refuse
  split
  · exact ensures_throw (hplain _)
  · exact .pure trivial

/-- A name is refused only if it stands twice. -/
theorem refuse_doubled_ensures {x : Option String} {scope : UniqueScope}
    {path : String → List String} (isOpen : ¬s.Closed)
    (h : ∀ name, x = some name → s.Doubles scope name) :
    Ensures (refuse x fun name => .duplicateId name scope (path name)) (fun _ => x = none)
      (s.Flawed pos.base pos.strict) := by
  unfold refuse
  split
  · exact .throw (Or.inr ⟨s, .here, .doubled isOpen (h _ rfl)⟩)
  · exact .pure rfl

theorem readStyle_ensures {location : ElementKind} :
    Ensures (readStyle pos e location) (fun _ => True) (s.Flawed pos.base pos.strict) := by
  unfold readStyle
  split
  · exact .pure trivial
  · split
    · exact ensures_throw rfl
    · split
      · split
        · exact (ensures_throw (Q := fun _ => False) rfl).bind fun _ hfalse => hfalse.elim
        · exact (Ensures.modify _).bind fun _ _ => .pure trivial
      · exact .pure trivial

theorem readStatus_ensures {status : String} :
    Ensures (readStatus pos status) (fun _ => True) (s.Flawed pos.base pos.strict) := by
  unfold readStatus
  split
  · exact .pure trivial
  · exact ensures_throw rfl

/-- A reference is read if it can be joined with the base. -/
theorem reference_ensures {kind : DefinitionKind} {href : String} (h : href ∈ s.hrefs) :
    Ensures (reference pos kind href) (fun _ => ∃ uri, joinUri pos.base href = .ok uri)
      (s.Flawed pos.base pos.strict) := by
  unfold reference
  split
  · rename_i uri huri
    exact .pure ⟨uri, huri⟩
  · rename_i error herror
    exact .throw (Or.inr ⟨s, .here, .fault (.badUri h herror)⟩)

/-! ### Params and representations -/

/-- Nothing is wrong below an element whose children are in order. -/
theorem ItemsOf.allChecked {base : String} {strict : Bool} (h : ItemsOf strict s found)
    (hjoined : ∀ href ∈ s.hrefs, ∃ uri, joinUri base href = .ok uri) (hdistinct : s.Distinct)
    (hinner : ∀ k ∈ s.kind.children, k ≠ .doc → ∀ e, (k, e) ∈ found →
      AllChecked base strict ⟨s.kind, k, e⟩) :
    s.AllChecked base strict := by
  refine allChecked_of_has h.orderly hjoined hdistinct fun k hk e has => ?_
  by_cases hdoc : k = .doc
  · rw [hdoc]
    exact allChecked_doc
  · exact hinner k hk hdoc e ((h.mem_iff k e hdoc).2 has)

/-- The items of one kind are read one by one. -/
theorem ItemsOf.mapM_ensures {α : Type} {read : Element → Reading α} {k : ElementKind}
    (h : ItemsOf pos.strict s found) (isOpen : ¬s.Closed) (hk : k ≠ .doc)
    (hread : ∀ e, Ensures (read e) (fun _ => AllChecked pos.base pos.strict ⟨s.kind, k, e⟩)
      (Flawed pos.base pos.strict ⟨s.kind, k, e⟩)) :
    Ensures ((ofKind k found).mapM read)
      (fun _ => ∀ e, (k, e) ∈ found → AllChecked pos.base pos.strict ⟨s.kind, k, e⟩)
      (s.Flawed pos.base pos.strict) := by
  have hall : Ensures ((ofKind k found).mapM read)
      (fun _ => ∀ e ∈ ofKind k found, AllChecked pos.base pos.strict ⟨s.kind, k, e⟩)
      (s.Flawed pos.base pos.strict) := by
    refine Ensures.mapM fun e he => (hread e).mono (fun _ hpass => hpass) fun _ hflawed => ?_
    exact hflawed.of_has isOpen ((h.mem_iff k e hk).1 (mem_ofKind.1 he))
  exact hall.mono (fun _ hpass e he => hpass e (mem_ofKind.2 he)) fun _ hflawed => hflawed

/-- Elements of most kinds are looked into. -/
theorem not_closed_of_kind (h : s.kind ∉ [.doc, .include, .param, .representation, .method]) :
    ¬s.Closed := by
  rintro (hkind | hkind | ⟨-, hkind | hkind | ⟨hkind, -⟩⟩) <;> exact h (by simp [hkind])

/-- Elements that are no references are looked into. -/
theorem not_closed_of_href (h : s.element.get? "href" = none) (hkind : s.kind ∉ [.doc, .include]) :
    ¬s.Closed := by
  rintro (hdoc | hinclude | ⟨hsome, -⟩)
  · exact hkind (by simp [hdoc])
  · exact hkind (by simp [hinclude])
  · rw [h] at hsome
    cases hsome

theorem readOption_ensures :
    Ensures (readOption pos e) (fun _ => AllChecked pos.base pos.strict ⟨around, .option, e⟩)
      (Flawed pos.base pos.strict ⟨around, .option, e⟩) := by
  have isOpen : ¬Closed ⟨around, .option, e⟩ := not_closed_of_kind (by simp)
  refine required_ensures.bind fun _ _ => (items_ensures isOpen).bind fun found hitems => .pure ?_
  exact hitems.allChecked (by simp [hrefs]) (distinct_of_kind (by simp)) fun k hk hdoc =>
    absurd (List.mem_singleton.1 hk) hdoc

/-- Reading the target of a link ensures that its reference joins with the base. -/
theorem readTarget_ensures {href : Option String}
    (h : ∀ r ∈ href.filter (!·.isEmpty), r ∈ s.hrefs) : Ensures (readTarget pos href)
      (fun _ => ∀ r ∈ href.filter (!·.isEmpty), ∃ uri, joinUri pos.base r = .ok uri)
      (s.Flawed pos.base pos.strict) := by
  unfold readTarget
  split
  · rename_i r
    split
    · rename_i hempty
      exact .pure (by simp [Option.filter, hempty])
    · rename_i hsome
      have hfilter : (some r).filter (!·.isEmpty) = some r := by simp [Option.filter, hsome]
      rw [hfilter] at h ⊢
      refine (reference_ensures (h r rfl)).map fun _ hjoined r' hr' => ?_
      rwa [← Option.some.inj hr']
  · exact .pure (by simp)

/-- Reading a link ensures that its reference is a URI and its content in place. -/
theorem readLink_ensures :
    Ensures (readLink pos e) (fun _ => AllChecked pos.base pos.strict ⟨around, .link, e⟩)
      (Flawed pos.base pos.strict ⟨around, .link, e⟩) := by
  have isOpen : ¬Closed ⟨around, .link, e⟩ := not_closed_of_kind (by simp)
  refine (readTarget_ensures (by simp [hrefs])).bind fun _ hjoined =>
    (items_ensures isOpen).bind fun found hitems => .pure ?_
  refine hitems.allChecked (fun href hhref => hjoined href (Option.mem_toList.1 hhref))
    (distinct_of_kind (by simp)) fun k hk hdoc => absurd (List.mem_singleton.1 hk) hdoc

/-- Reading a param that is no reference looks at its options and links. -/
theorem readParamBody_ensures (hhref : e.get? "href" = none) :
    Ensures (readParamBody pos around e)
      (fun _ => AllChecked pos.base pos.strict ⟨around, .param, e⟩)
      (Flawed pos.base pos.strict ⟨around, .param, e⟩) := by
  have isOpen : ¬Closed ⟨around, .param, e⟩ := not_closed_of_href hhref (by simp)
  refine required_ensures.bind fun _ _ => readStyle_ensures.bind fun _ _ =>
    (items_ensures isOpen).bind fun found hitems => ?_
  refine (hitems.mapM_ensures isOpen (by decide) fun _ => readOption_ensures).and_yields.bind
    fun options ⟨hoptions, hread⟩ => ?_
  have hvalues : options.map (·.value) = optionValuesIn e.content := by
    rw [yields_mapM_optionValues hread, hitems.children]
    rfl
  rw [hvalues]
  refine (refuse_doubled_ensures isOpen fun value hvalue =>
    .optionValue rfl (firstDoubled_eq_some hvalue)).bind
    fun _ hnone => flag_ensures.bind fun _ _ => flag_ensures.bind fun _ _ => ?_
  refine (hitems.mapM_ensures isOpen (by decide) fun _ => readLink_ensures).bind fun _ hlinks =>
    .pure ?_
  have hdistinct : Distinct ⟨around, .param, e⟩ := by
    rintro scope name (⟨holds, -⟩ | ⟨-, twice⟩ | ⟨holds, -⟩)
    · simp at holds
    · exact List.nodup_iff_forall_not_duplicate.1 (nodup_iff_firstDoubled.1 hnone) name twice
    · simp at holds
  refine hitems.allChecked (by simp [hrefs, hhref]) hdistinct fun k hk hdoc => ?_
  obtain rfl | rfl : k = .option ∨ k = .link := by simpa [ElementKind.children, hdoc] using hk
  · exact hoptions
  · exact hlinks

/-- The only reference of an element that is one is in its attribute. -/
theorem hrefs_of_isReference (h : s.IsReference) : s.hrefs = (s.element.get? "href").toList := by
  obtain ⟨-, hkind | hkind | ⟨hkind, haround⟩⟩ := h <;> simp [hrefs, *]

/-- Of a reference nothing is wanted but that it can be joined with the base. -/
theorem reference_ensures_allChecked {kind : DefinitionKind} {href : String} (h : s.IsReference)
    (hhref : s.element.get? "href" = some href) :
    Ensures (reference pos kind href) (fun _ => s.AllChecked pos.base pos.strict)
      (s.Flawed pos.base pos.strict) := by
  have hhrefs : s.hrefs = [href] := by
    rw [hrefs_of_isReference h, hhref]
    rfl
  refine (reference_ensures (by simp [hhrefs])).mono (fun _ hjoined => ?_) fun _ hflawed => hflawed
  refine allChecked_of_closed (Or.inr (Or.inr h)) fun href' hhref' => ?_
  rw [hhrefs, List.mem_singleton] at hhref'
  rwa [hhref']

/-- Reading a param looks into it unless it is a reference. -/
theorem readParam_ensures :
    Ensures (readParam pos around e) (fun _ => AllChecked pos.base pos.strict ⟨around, .param, e⟩)
      (Flawed pos.base pos.strict ⟨around, .param, e⟩) := by
  unfold readParam
  refine requireId_ensures.bind fun _ _ => ?_
  split
  · rename_i href hhref
    have hreference : IsReference ⟨around, .param, e⟩ := ⟨by simp [hhref], Or.inl rfl⟩
    exact (reference_ensures_allChecked hreference hhref).bind fun _ hpass => .pure hpass
  · rename_i hnone
    exact (readParamBody_ensures hnone).bind fun _ hpass => .pure hpass

/-- Reading params ensures, besides, that their names differ. -/
theorem readParams_ensures (h : ItemsOf pos.strict s found) (isOpen : ¬s.Closed)
    (hs : s.kind ∈ [.resource, .resourceType, .request, .response, .representation]) :
    Ensures (readParams pos s.kind found)
      (fun _ => (∀ e, (.param, e) ∈ found → AllChecked pos.base pos.strict ⟨s.kind, .param, e⟩) ∧
        (paramNamesIn s.element.content).Nodup)
      (s.Flawed pos.base pos.strict) := by
  refine (h.mapM_ensures isOpen (by decide) fun _ => readParam_ensures).and_yields.bind
    fun params ⟨hpass, hread⟩ => ?_
  have hnames : (params.filterMap (·.param?)).map (·.name) = paramNamesIn s.element.content := by
    have hnames := yields_mapM_paramNames hread
    rwa [h.children] at hnames
  rw [hnames]
  refine (refuse_doubled_ensures isOpen fun name hname => .paramName hs ?_).bind fun _ hnone =>
    .pure ⟨hpass, nodup_iff_firstRepeated.1 hnone⟩
  exact (firstRepeated_eq_some hname).resolve_left (by simp)

theorem readRepresentationBody_ensures (hhref : e.get? "href" = none) :
    Ensures (readRepresentationBody pos e)
      (fun _ => AllChecked pos.base pos.strict ⟨around, .representation, e⟩)
      (Flawed pos.base pos.strict ⟨around, .representation, e⟩) := by
  have isOpen : ¬Closed ⟨around, .representation, e⟩ := not_closed_of_href hhref (by simp)
  refine (items_ensures isOpen).bind fun found hitems => ?_
  refine (readParams_ensures hitems isOpen (by simp)).bind fun _ ⟨hparams, hnames⟩ => .pure ?_
  refine hitems.allChecked (by simp [hrefs, hhref]) (distinct_of_params (by simp) hnames)
    fun k hk hdoc => ?_
  obtain rfl : k = .param := by simpa [ElementKind.children, hdoc] using hk
  exact hparams

/-- Reading a representation looks into it unless it is a reference. -/
theorem readRepresentation_ensures :
    Ensures (readRepresentation pos around e)
      (fun _ => AllChecked pos.base pos.strict ⟨around, .representation, e⟩)
      (Flawed pos.base pos.strict ⟨around, .representation, e⟩) := by
  unfold readRepresentation
  refine requireId_ensures.bind fun _ _ => ?_
  split
  · rename_i href hhref
    have hreference : IsReference ⟨around, .representation, e⟩ :=
      ⟨by simp [hhref], Or.inr (Or.inl rfl)⟩
    exact (reference_ensures_allChecked hreference hhref).bind fun _ hpass => .pure hpass
  · rename_i hnone
    exact (readRepresentationBody_ensures hnone).bind fun _ hpass => .pure hpass

theorem readRepresentations_ensures (h : ItemsOf pos.strict s found) (isOpen : ¬s.Closed) :
    Ensures (readRepresentations pos s.kind found)
      (fun _ => ∀ e, (.representation, e) ∈ found →
        AllChecked pos.base pos.strict ⟨s.kind, .representation, e⟩)
      (s.Flawed pos.base pos.strict) :=
  h.mapM_ensures isOpen (by decide) fun _ => readRepresentation_ensures

/-! ### Methods -/

theorem readRequest_ensures :
    Ensures (readRequest pos e) (fun _ => AllChecked pos.base pos.strict ⟨around, .request, e⟩)
      (Flawed pos.base pos.strict ⟨around, .request, e⟩) := by
  have isOpen : ¬Closed ⟨around, .request, e⟩ := not_closed_of_kind (by simp)
  refine (items_ensures isOpen).bind fun found hitems => ?_
  refine (readParams_ensures hitems isOpen (by simp)).bind fun _ ⟨hparams, hnames⟩ => ?_
  refine (readRepresentations_ensures hitems isOpen).bind fun _ hreps => .pure ?_
  refine hitems.allChecked (by simp [hrefs]) (distinct_of_params (by simp) hnames)
    fun k hk hdoc => ?_
  obtain rfl | rfl : k = .param ∨ k = .representation := by
    simpa [ElementKind.children, hdoc] using hk
  · exact hparams
  · exact hreps

theorem readResponse_ensures :
    Ensures (readResponse pos e) (fun _ => AllChecked pos.base pos.strict ⟨around, .response, e⟩)
      (Flawed pos.base pos.strict ⟨around, .response, e⟩) := by
  have isOpen : ¬Closed ⟨around, .response, e⟩ := not_closed_of_kind (by simp)
  refine readStatus_ensures.bind fun _ _ => (items_ensures isOpen).bind fun found hitems => ?_
  refine (readParams_ensures hitems isOpen (by simp)).bind fun _ ⟨hparams, hnames⟩ => ?_
  refine (readRepresentations_ensures hitems isOpen).bind fun _ hreps => .pure ?_
  refine hitems.allChecked (by simp [hrefs]) (distinct_of_params (by simp) hnames)
    fun k hk hdoc => ?_
  obtain rfl | rfl : k = .param ∨ k = .representation := by
    simpa [ElementKind.children, hdoc] using hk
  · exact hparams
  · exact hreps

/-- Reading the only request ensures that there is no second one. -/
theorem readOnlyRequest_ensures (isOpen : ¬s.Closed) {es : List Element}
    (h : ∀ e ∈ es, s.Has .request e) :
    Ensures (readOnlyRequest pos es)
      (fun _ => ∀ e ∈ es, AllChecked pos.base pos.strict ⟨s.kind, .request, e⟩)
      (s.Flawed pos.base pos.strict) := by
  unfold readOnlyRequest
  split
  · exact .pure (by simp)
  · rename_i e
    have hrequest :
        Ensures (readRequest pos e) (fun _ => AllChecked pos.base pos.strict ⟨s.kind, .request, e⟩)
        (s.Flawed pos.base pos.strict) :=
      readRequest_ensures.mono (fun _ hpass => hpass) fun _ hflawed =>
        hflawed.of_has isOpen (h e (by simp))
    exact hrequest.map fun _ hpass => List.forall_mem_singleton.2 hpass
  · exact ensures_throw rfl

theorem readMethodBody_ensures (isOpen : ¬Closed ⟨around, .method, e⟩)
    (hhrefs : hrefs ⟨around, .method, e⟩ = []) :
    Ensures (readMethodBody pos e) (fun _ => AllChecked pos.base pos.strict ⟨around, .method, e⟩)
      (Flawed pos.base pos.strict ⟨around, .method, e⟩) := by
  refine required_ensures.bind fun _ _ => (items_ensures isOpen).bind fun found hitems => ?_
  have hrequests : ∀ e' ∈ ofKind .request found, Has ⟨around, .method, e⟩ .request e' :=
    fun e' he' => (hitems.mem_iff .request e' (by decide)).1 (mem_ofKind.1 he')
  refine (readOnlyRequest_ensures isOpen hrequests).bind fun _ hrequest => ?_
  refine (hitems.mapM_ensures isOpen (by decide) fun _ => readResponse_ensures).bind
    fun _ hresponses => .pure ?_
  refine hitems.allChecked (by simp [hhrefs]) (distinct_of_kind (by simp)) fun k hk hdoc => ?_
  obtain rfl | rfl : k = .request ∨ k = .response := by simpa [ElementKind.children, hdoc] using hk
  · exact fun e' he' => hrequest e' (mem_ofKind.2 he')
  · exact hresponses

/-- Reading a method looks into it unless it is a reference; at the top of a document it is none. -/
theorem readMethod_ensures (haround : around ≠ .application) :
    Ensures (readMethod pos e) (fun _ => AllChecked pos.base pos.strict ⟨around, .method, e⟩)
      (Flawed pos.base pos.strict ⟨around, .method, e⟩) := by
  unfold readMethod
  simp only
  split
  · rename_i href hhref
    have hreference : IsReference ⟨around, .method, e⟩ :=
      ⟨by simp [hhref], Or.inr (Or.inr ⟨rfl, haround⟩)⟩
    exact (reference_ensures_allChecked hreference hhref).bind fun _ hpass => .pure hpass
  · rename_i hnone
    have isOpen : ¬Closed ⟨around, .method, e⟩ := not_closed_of_href hnone (by simp)
    exact (readMethodBody_ensures isOpen (by simp [hrefs, hnone])).bind fun _ hpass => .pure hpass

/-- Reading methods ensures, besides, that their identifiers differ. -/
theorem readMethods_ensures (h : ItemsOf pos.strict s found) (isOpen : ¬s.Closed)
    (hs : s.kind ∈ [.resource, .resourceType]) :
    Ensures (readMethods pos found)
      (fun _ => (∀ e, (.method, e) ∈ found → AllChecked pos.base pos.strict ⟨s.kind, .method, e⟩) ∧
        (methodIdsIn s.element.content).Nodup)
      (s.Flawed pos.base pos.strict) := by
  have haround : s.kind ≠ .application := fun hkind => absurd (hkind ▸ hs) (by decide)
  refine (h.mapM_ensures isOpen (by decide) fun _ => readMethod_ensures haround).and_yields.bind
    fun methods ⟨hpass, hread⟩ => ?_
  have hids : methods.filterMap methodId? = methodIdsIn s.element.content := by
    rw [yields_mapM_methodIds hread, h.children]
    rfl
  rw [hids]
  refine (refuse_doubled_ensures isOpen fun id hid => .methodId hs ?_).bind fun _ hnone =>
    .pure ⟨hpass, nodup_iff_firstRepeated.1 hnone⟩
  exact (firstRepeated_eq_some hid).resolve_left (by simp)

/-- A method at the top of a document is no reference, whatever its attributes are. -/
theorem readTopMethod_ensures :
    Ensures (readTopMethod pos e)
      (fun _ => AllChecked pos.base pos.strict ⟨.application, .method, e⟩)
      (Flawed pos.base pos.strict ⟨.application, .method, e⟩) := by
  have isOpen : ¬Closed ⟨.application, .method, e⟩ := by simp [Closed, IsReference]
  unfold readTopMethod
  exact requireId_ensures.bind fun _ _ => readMethodBody_ensures isOpen (by simp [hrefs])

/-! ### Resources -/

/-- The types of a resource are read if they can be joined with the base. -/
theorem types_ensures {inside : Position} :
    Ensures ((wordsOf ((e.get? "type").getD "")).mapM (reference inside .resourceType))
      (fun _ => ∀ href ∈ hrefs ⟨around, .resource, e⟩, ∃ uri, joinUri inside.base href = .ok uri)
      (Flawed inside.base inside.strict ⟨around, .resource, e⟩) :=
  Ensures.mapM fun _ hhref => reference_ensures hhref

/-- Reading a resource checks all below it if the reading of what is below does. -/
theorem readResource_ensures {inherited : List String}
    {below : Position → List String → Reading (List Resource)}
    (hbelow : ∀ inside declared, inside.base = pos.base → inside.strict = pos.strict →
      Ensures (below inside declared) (fun _ => ∀ e', Has ⟨around, .resource, e⟩ .resource e' →
        AllChecked pos.base pos.strict ⟨.resource, .resource, e'⟩)
        (Flawed pos.base pos.strict ⟨around, .resource, e⟩)) :
    Ensures (readResource pos inherited e below)
      (fun _ => AllChecked pos.base pos.strict ⟨around, .resource, e⟩)
      (Flawed pos.base pos.strict ⟨around, .resource, e⟩) := by
  have isOpen : ¬Closed ⟨around, .resource, e⟩ := not_closed_of_kind (by simp)
  refine (items_ensures isOpen).bind fun found hitems => ?_
  refine (readParams_ensures hitems isOpen (by simp)).bind fun _ ⟨hparams, hnames⟩ => ?_
  refine (readMethods_ensures hitems isOpen (by simp)).bind fun _ ⟨hmethods, hids⟩ => ?_
  refine types_ensures.bind fun _ htypes =>
    (hbelow (insideResource pos e) _ rfl rfl).bind fun _ hresources => ?_
  refine (refuse_ensures fun _ => rfl).bind fun _ _ => .pure ?_
  refine hitems.allChecked htypes (distinct_of_methods (by simp) hnames hids) fun k hk hdoc => ?_
  obtain rfl | rfl | rfl : k = .param ∨ k = .method ∨ k = .resource := by
    simpa [ElementKind.children, hdoc] using hk
  · exact hparams
  · exact hmethods
  · exact fun e' he' => hresources e' ((hitems.mem_iff _ _ hdoc).1 he')

mutual

/-- Reading a piece of a content checks it if it is a resource. -/
theorem readIfResource_ensures :
    ∀ (n : Xml.Node) {s : Site} {pos : Position} {inherited : List String},
    ¬s.Closed → n ∈ s.element.content →
      Ensures (readIfResource pos inherited n) (fun _ => ∀ e : Element, e.node = n →
        ElementKind.resource.IsTag e.tag → AllChecked pos.base pos.strict ⟨s.kind, .resource, e⟩)
        (s.Flawed pos.base pos.strict)
  | .element tag content, s, pos, inherited, isOpen, hn => by
    rw [readIfResource]
    split
    · rename_i htag
      have hhas : s.Has .resource ⟨tag, content⟩ := ⟨hn, isResourceTag_iff_isTag.1 htag⟩
      have hopen : ¬Closed ⟨s.kind, .resource, ⟨tag, content⟩⟩ := not_closed_of_kind (by simp)
      have hread : Ensures (readResource pos inherited ⟨tag, content⟩ fun inside declared =>
          readResources inside declared content)
          (fun _ => AllChecked pos.base pos.strict ⟨s.kind, .resource, ⟨tag, content⟩⟩)
          (Flawed pos.base pos.strict ⟨s.kind, .resource, ⟨tag, content⟩⟩) := by
        refine readResource_ensures fun inside declared hbase hstrict => ?_
        rw [← hbase, ← hstrict]
        exact (readResources_ensures content hopen (List.Subset.refl _)).mono
          (fun _ hpass e' hhas' => hpass e' hhas'.1 hhas'.2) fun _ hflawed => hflawed
      refine (hread.mono (fun _ hpass => hpass) fun _ hflawed => hflawed.of_has isOpen hhas).map
        fun _ hpass e he _ => ?_
      obtain rfl : e = ⟨tag, content⟩ := Element.node_inj he
      exact hpass
    · rename_i htag
      refine .pure fun e he htag' => absurd ?_ htag
      obtain rfl : e = ⟨tag, content⟩ := Element.node_inj he
      exact isResourceTag_iff_isTag.2 htag'
  | .text _, _, _, _, _, _ | .comment _, _, _, _, _, _ | .instruction _, _, _, _, _, _ =>
    .pure fun _ he => by cases he

/-- The resources among some of the content of an element are read. -/
theorem readResources_ensures : ∀ (content : List Xml.Node) {s : Site} {pos : Position}
    {inherited : List String}, ¬s.Closed → content ⊆ s.element.content →
      Ensures (readResources pos inherited content) (fun _ => ∀ e : Element, e.node ∈ content →
        ElementKind.resource.IsTag e.tag → AllChecked pos.base pos.strict ⟨s.kind, .resource, e⟩)
        (s.Flawed pos.base pos.strict)
  | [], _, _, _, _, _ => by
    rw [readResources]
    exact .pure (by simp)
  | n :: rest, _, _, _, isOpen, hsub => by
    rw [readResources]
    obtain ⟨hn, hrest⟩ := List.cons_subset.1 hsub
    refine (readIfResource_ensures n isOpen hn).bind fun _ hfirst => ?_
    refine (readResources_ensures rest isOpen hrest).bind fun _ hmore => .pure fun e he htag => ?_
    rcases List.mem_cons.1 he with heq | he
    · exact hfirst e heq htag
    · exact hmore e he htag

end

/-- Reading a resource type checks all below it. -/
theorem readResourceType_ensures :
    Ensures (readResourceType pos e)
      (fun _ => AllChecked pos.base pos.strict ⟨around, .resourceType, e⟩)
      (Flawed pos.base pos.strict ⟨around, .resourceType, e⟩) := by
  have isOpen : ¬Closed ⟨around, .resourceType, e⟩ := not_closed_of_kind (by simp)
  refine required_ensures.bind fun id _ => (items_ensures isOpen).bind fun found hitems => ?_
  refine (readParams_ensures hitems isOpen (by simp)).bind fun _ ⟨hparams, hnames⟩ => ?_
  refine (readMethods_ensures hitems isOpen (by simp)).bind fun _ ⟨hmethods, hids⟩ => ?_
  refine (readResources_ensures e.content isOpen (List.Subset.refl _)).bind fun _ hresources =>
    .pure ?_
  refine hitems.allChecked (by simp [hrefs]) (distinct_of_methods (by simp) hnames hids)
    fun k hk hdoc => ?_
  obtain rfl | rfl | rfl : k = .param ∨ k = .method ∨ k = .resource := by
    simpa [ElementKind.children, hdoc] using hk
  · exact hparams
  · exact hmethods
  · intro e' he'
    obtain ⟨hwithin, htag⟩ := (hitems.mem_iff _ _ hdoc).1 he'
    exact hresources e' hwithin htag

theorem readGroup_ensures :
    Ensures (readGroup pos e) (fun _ => AllChecked pos.base pos.strict ⟨around, .resources, e⟩)
      (Flawed pos.base pos.strict ⟨around, .resources, e⟩) := by
  have isOpen : ¬Closed ⟨around, .resources, e⟩ := not_closed_of_kind (by simp)
  refine (items_ensures isOpen).bind fun found hitems => ?_
  refine (readResources_ensures e.content isOpen (List.Subset.refl _)).bind fun _ hresources =>
    .pure ?_
  refine hitems.allChecked (by simp [hrefs]) (distinct_of_kind (by simp)) fun k hk hdoc e' he' => ?_
  obtain rfl : k = .resource := by simpa [ElementKind.children, hdoc] using hk
  obtain ⟨hwithin, htag⟩ := (hitems.mem_iff _ _ hdoc).1 he'
  exact hresources e' hwithin htag

theorem readGrammars_ensures :
    Ensures (readGrammars pos e) (fun _ => AllChecked pos.base pos.strict ⟨around, .grammars, e⟩)
      (Flawed pos.base pos.strict ⟨around, .grammars, e⟩) := by
  have isOpen : ¬Closed ⟨around, .grammars, e⟩ := not_closed_of_kind (by simp)
  refine (items_ensures isOpen).bind fun found hitems => ?_
  refine (Ensures.mapM fun _ _ => required_ensures).mono (fun _ _ => ?_) fun _ hflawed => hflawed
  refine hitems.allChecked (by simp [hrefs]) (distinct_of_kind (by simp)) fun k hk hdoc e' _ => ?_
  obtain rfl : k = .include := by simpa [ElementKind.children, hdoc] using hk
  exact allChecked_of_closed (Or.inr (Or.inl rfl)) (by simp [hrefs])

/-! ### Documents -/

/-- An identifier that is not new stands twice in the document. -/
theorem checkNew_ensures {kind : ElementKind} {id : Option String} {earlier : List (Option String)}
    {F : DocumentError → Prop} :
    Ensures (checkNew pos kind id earlier) (fun _ => True) (fun e => F e ∨ e.IsWide = true) := by
  unfold checkNew refuse
  split
  · exact .throw (Or.inr rfl)
  · exact .pure trivial

/-- Adding an item to a description checks the item, or fails for the whole document. -/
theorem addItem_ensures {app : Application} {k : ElementKind}
    (hk : k ∈ ElementKind.application.children) :
    Ensures (addItem pos app (k, e)) (fun _ => AllChecked pos.base pos.strict ⟨.application, k, e⟩)
      (fun error => Flawed pos.base pos.strict ⟨.application, k, e⟩ error ∨
        error.IsWide = true) := by
  have hread : ∀ {α : Type} {read : Reading α} {f : α → Reading Application},
      Ensures read (fun _ => AllChecked pos.base pos.strict ⟨.application, k, e⟩)
        (Flawed pos.base pos.strict ⟨.application, k, e⟩) →
      (∀ a, Ensures (f a) (fun _ => True)
        (fun error => Flawed pos.base pos.strict ⟨.application, k, e⟩ error ∨
          error.IsWide = true)) →
      Ensures (read >>= f) (fun _ => AllChecked pos.base pos.strict ⟨.application, k, e⟩)
        (fun error => Flawed pos.base pos.strict ⟨.application, k, e⟩ error ∨
          error.IsWide = true) := by
    intro α read f h hf
    exact (h.mono (fun _ hpass => hpass) fun _ hflawed => Or.inl hflawed).bind fun a hpass =>
      (hf a).mono (fun _ _ => hpass) fun _ he => he
  simp only [ElementKind.children, List.mem_cons, List.not_mem_nil, or_false] at hk
  rcases hk with rfl | rfl | rfl | rfl | rfl | rfl | rfl
  · exact .pure allChecked_doc
  · exact hread readGrammars_ensures fun _ => .pure trivial
  · exact hread readGroup_ensures fun _ => .pure trivial
  · exact hread readResourceType_ensures fun _ => checkNew_ensures.bind fun _ _ => .pure trivial
  · exact hread readTopMethod_ensures fun _ => checkNew_ensures.bind fun _ _ => .pure trivial
  · exact hread readRepresentation_ensures fun _ => checkNew_ensures.bind fun _ _ => .pure trivial
  · exact hread readParam_ensures fun _ => checkNew_ensures.bind fun _ _ => .pure trivial

/-- Reading a description checks all below the root. -/
theorem readApplication_ensures {base : String} {strict : Bool} :
    Ensures (readApplication base strict e.node) (fun _ => (top e).AllChecked base strict)
      (fun error => (top e).Flawed base strict error ∨ error.IsWide = true) := by
  have isOpen : ¬(top e).Closed := not_closed_of_kind (by simp [top])
  simp only [Element.node, readApplication]
  split
  · have hthrow : ∀ {α : Type},
        Ensures (throw (.malformed (.wrongRoot e.tag.name.label) []) : Reading α)
        (fun _ => False) (fun error => (top e).Flawed base strict error ∨ error.IsWide = true) :=
      .throw (Or.inl (Or.inl rfl))
    exact hthrow.bind fun _ hfalse => hfalse.elim
  · refine ((items_ensures isOpen).mono (fun _ h => h) fun _ hflawed => Or.inl hflawed).bind
      fun found hitems => ?_
    refine (Ensures.foldlM (P := fun x : ElementKind × Element =>
      AllChecked base strict ⟨.application, x.1, x.2⟩) fun x hx app => ?_).mono
      (fun _ hpass => hitems.allChecked (by simp [top, hrefs]) (distinct_of_kind (by simp [top]))
        fun k _ _ e' he' => hpass (k, e') he')
      fun _ hflawed => hflawed
    obtain ⟨k, e'⟩ := x
    by_cases hdoc : k = .doc
    · subst hdoc
      exact .pure allChecked_doc
    · have hhas := (hitems.mem_iff k e' hdoc).1 hx
      exact (addItem_ensures (hitems.orderly.allowed k e' hhas)).mono
          (fun _ hpass => hpass) fun _ hflawed =>
        hflawed.imp_left fun h => h.of_has isOpen hhas

end Reader

/-- A description has no index only because an identifier stands for two definitions. -/
theorem Index.error_of_ofApplication {app : Application} {error : DocumentError}
    (h : Index.ofApplication app = .error error) : ∃ id path, error = .duplicateId id .id path := by
  unfold Index.ofApplication at h
  split at h
  · cases h
  · exact ⟨_, _, (Except.error.inj h).symm⟩

/-- Reading a document ensures that nothing is wrong with its elements, as far as it looks at
them. -/
theorem readDescription_checks {base : String} {strict : Bool} {e : Element} :
    Ensures (readDescription base strict e.node) (fun _ => (Site.top e).AllChecked base strict)
      (fun error => (Site.top e).Flawed base strict error ∨ error.IsWide = true) := by
  refine readApplication_ensures.bind fun app hpass => ?_
  refine (Ensures.lift (fun _ _ => trivial) fun error herror => ?_).bind fun _ (_ : True) =>
    .pure hpass
  obtain ⟨id, path, rfl⟩ := Index.error_of_ofApplication herror
  exact Or.inr rfl

/-- Reading a document ensures that nothing is wrong with its references and its nesting. -/
theorem readDescription_ensures {base : String} {strict : Bool} {e : Element} :
    Ensures (readDescription base strict e.node) (fun _ => (Site.top e).AllPass base strict)
      ((Site.top e).Blamed base strict) := by
  refine readDescription_checks.mono (fun _ h => h.allPass) fun error h => ?_
  rcases h with hflawed | hwide
  · exact hflawed.blamed
  · exact .inl (DocumentError.isOwn_of_isWide hwide)

end Wadl
