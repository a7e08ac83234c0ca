import Mathlib.Logic.Relation
import Wadl.Proofs.Document.Gathering

/-!
# Trees that are read alike

A tree can be edited without a difference to what is read of it (`Edit`): children with different
labels change places, elements of other namespaces come and go, and elements move between the
namespace of descriptions and none. After an edit an element has, kind by kind, children that are
the same or edited themselves (`Edit.near`), and each reader gives of an edited element what it
gives of the element (`Agrees`).
-/

namespace Wadl

namespace Reader

/-! ## Edits -/

/-- Whether a piece is an element with a label. -/
def hasLabel (label : String) : Xml.Node → Bool
  | .element tag _ => tag.name.label = label
  | _ => false

/-- The elements with a label among some pieces. -/
def labelledNodes (label : String) (content : List Xml.Node) : List Xml.Node :=
  content.filter (hasLabel label)

/-- A piece that is nothing to a description: no element, or one of another namespace that is no
documentation. -/
def IsExtraneous : Xml.Node → Prop
  | .element tag _ => tag.name.label ≠ ElementKind.doc.word ∧ tag.name.isWadl = false
  | _ => True

/-- One element of a piece has moved between the namespace of descriptions and none. -/
inductive Moved : Xml.Node → Xml.Node → Prop where
  | here {name name' : Xml.Name} {attributes : List (Xml.Name × String)} {content : List Xml.Node}
      (label : name'.label = name.label) (own : name.isWadl = true)
        (stillOwn : name'.isWadl = true) :
      Moved (.element ⟨name, attributes⟩ content) (.element ⟨name', attributes⟩ content)
  | inside {tag : Xml.Tag} {before after : List Xml.Node} {n n' : Xml.Node} (moved : Moved n n') :
      Moved (.element tag (before ++ n :: after)) (.element tag (before ++ n' :: after))

/-- One change to a piece. What stands in documentation is markup and stays, except for the
namespaces of its elements. -/
inductive Edit : Xml.Node → Xml.Node → Prop where
  | move {n n' : Xml.Node} (moved : Moved n n') : Edit n n'
  /-- Children are put in another order, but not those with the same label. -/
  | reorder {tag : Xml.Tag} {content content' : List Xml.Node}
      (undocumented : tag.name.label ≠ ElementKind.doc.word) (perm : content'.Perm content)
      (kept : ∀ label, labelledNodes label content' = labelledNodes label content) :
      Edit (.element tag content) (.element tag content')
  | insert {tag : Xml.Tag} {before after : List Xml.Node} {n : Xml.Node}
      (undocumented : tag.name.label ≠ ElementKind.doc.word) (extraneous : IsExtraneous n) :
      Edit (.element tag (before ++ after)) (.element tag (before ++ n :: after))
  | remove {tag : Xml.Tag} {before after : List Xml.Node} {n : Xml.Node}
      (undocumented : tag.name.label ≠ ElementKind.doc.word) (extraneous : IsExtraneous n) :
      Edit (.element tag (before ++ n :: after)) (.element tag (before ++ after))
  | inside {tag : Xml.Tag} {before after : List Xml.Node} {n n' : Xml.Node}
      (undocumented : tag.name.label ≠ ElementKind.doc.word) (edit : Edit n n') :
      Edit (.element tag (before ++ n :: after)) (.element tag (before ++ n' :: after))

/-! ## Markup -/

mutual

/-- Markup loses the namespace of descriptions once and for all. -/
theorem plainMarkup_plainMarkup : ∀ n : Xml.Node, plainMarkup (plainMarkup n) = plainMarkup n
  | .element tag content => by
    simp only [plainMarkup, plainMarkupList_plainMarkupList content]
    by_cases h : tag.name.space = some wadlSpace <;> simp [h, Xml.Name.plain]
  | .text _ | .comment _ | .instruction _ => rfl

theorem plainMarkupList_plainMarkupList : ∀ content : List Xml.Node,
    plainMarkupList (plainMarkupList content) = plainMarkupList content
  | [] => rfl
  | n :: rest => by
    simp only [plainMarkupList, plainMarkup_plainMarkup n, plainMarkupList_plainMarkupList rest]

end

theorem plainMarkupList_append (xs ys : List Xml.Node) :
    plainMarkupList (xs ++ ys) = plainMarkupList xs ++ plainMarkupList ys := by
  induction xs with
  | nil => rfl
  | cons n xs ih => simp only [List.cons_append, plainMarkupList, ih]

/-- What documentation is kept as does not depend on the namespace that its elements lose. -/
theorem markupText_plainMarkupList : ∀ (kept : Bool) (content : List Xml.Node),
    markupText kept (plainMarkupList content) = markupText kept content
  | _, [] => rfl
  | kept, .text s :: rest => by
    simp only [plainMarkupList, plainMarkup, markupText, markupText_plainMarkupList kept rest]
  | _, .element tag content :: rest => by
    have hplain := plainMarkup_plainMarkup (.element tag content)
    simp only [plainMarkup] at hplain
    simp only [plainMarkupList, plainMarkup, markupText, hplain,
      markupText_plainMarkupList true rest]
  | _, .comment _ :: rest | _, .instruction _ :: rest => by
    simp only [plainMarkupList, plainMarkup, markupText, markupText_plainMarkupList false rest]

/-- The foreign namespaces of the elements in documentation stay as they are. -/
theorem foreignSpace_childTags_plainMarkupList : ∀ content : List Xml.Node,
    (Xml.childTags (plainMarkupList content)).map (foreignSpace ·.name) =
      (Xml.childTags content).map (foreignSpace ·.name)
  | [] => rfl
  | .element tag content :: rest => by
    have ih := foreignSpace_childTags_plainMarkupList rest
    simp only [Xml.childTags] at ih
    simp only [plainMarkupList, plainMarkup, Xml.childTags, List.filterMap_cons, List.map_cons, ih]
    by_cases h : tag.name.space = some wadlSpace <;>
      simp [h, foreignSpace, Xml.Name.isWadl, Xml.Name.plain]
  | .text _ :: rest | .comment _ :: rest | .instruction _ :: rest =>
    foreignSpace_childTags_plainMarkupList rest

/-- Tags that say the same. -/
structure SameTag (tag tag' : Xml.Tag) : Prop where
  label : tag'.name.label = tag.name.label
  isWadl : tag'.name.isWadl = tag.name.isWadl
  space : foreignSpace tag'.name = foreignSpace tag.name
  attributes : tag'.attributes = tag.attributes

theorem SameTag.refl (tag : Xml.Tag) : SameTag tag tag := ⟨rfl, rfl, rfl, rfl⟩

/-- Documentation is its tag and its markup without the namespace of descriptions. -/
theorem readDoc_congr {e e' : Element} (htag : SameTag e.tag e'.tag)
    (hcontent : plainMarkupList e'.content = plainMarkupList e.content) :
    readDoc e' = readDoc e := by
  have htext : markupText true e'.content = markupText true e.content := by
    rw [← markupText_plainMarkupList, hcontent, markupText_plainMarkupList]
  have hspaces : (Xml.childTags e'.content).map (foreignSpace ·.name) =
      (Xml.childTags e.content).map (foreignSpace ·.name) := by
    rw [← foreignSpace_childTags_plainMarkupList, hcontent, foreignSpace_childTags_plainMarkupList]
  simp only [readDoc, Element.get?, Xml.Tag.get?, Xml.Tag.attribute?, htag.attributes, htext,
    List.map_cons, htag.space, hspaces]

/-- An element that only moves between the namespaces of descriptions is the same markup. -/
theorem Moved.plainMarkup_eq {n n' : Xml.Node} (h : Moved n n') :
    plainMarkup n' = plainMarkup n := by
  induction h with
  | @here name name' attributes content label own stillOwn =>
    obtain ⟨space, l⟩ := name
    obtain ⟨space', l'⟩ := name'
    obtain rfl : l' = l := label
    simp only [Xml.Name.isWadl, Bool.or_eq_true, beq_iff_eq] at own stillOwn
    rcases own with rfl | rfl <;> rcases stillOwn with rfl | rfl <;>
      simp [plainMarkup, Xml.Name.plain]
  | inside _ ih => simp only [plainMarkup, plainMarkupList_append, plainMarkupList, ih]

/-! ## Edited elements -/

/-- What moves keeps its tag but for the namespace, and its content as markup. -/
theorem Moved.sameTag (e e' : Element) (h : Moved e.node e'.node) :
    SameTag e.tag e'.tag ∧ plainMarkupList e'.content = plainMarkupList e.content := by
  obtain ⟨tag, content⟩ := e
  obtain ⟨tag', content'⟩ := e'
  simp only [Element.node] at h
  cases h with
  | here label own stillOwn =>
    exact ⟨⟨label, stillOwn.trans own.symm, by simp [foreignSpace, own, stillOwn], rfl⟩, rfl⟩
  | inside moved =>
    exact ⟨.refl _, by simp only [plainMarkupList_append, plainMarkupList, moved.plainMarkup_eq]⟩

/-- An edit keeps the tag but for the namespace, and what documentation says. -/
theorem Edit.sameTag {e e' : Element} (h : Edit e.node e'.node) :
    SameTag e.tag e'.tag ∧ (e.tag.name.label = ElementKind.doc.word → readDoc e' = readDoc e) := by
  obtain ⟨tag, content⟩ := e
  obtain ⟨tag', content'⟩ := e'
  simp only [Element.node] at h
  cases h with
  | move moved =>
    obtain ⟨htag, hcontent⟩ := Moved.sameTag ⟨tag, content⟩ ⟨tag', content'⟩ moved
    exact ⟨htag, fun _ => readDoc_congr htag hcontent⟩
  | reorder undocumented | insert undocumented | remove undocumented | inside undocumented =>
    exact ⟨.refl _, fun hdoc => absurd hdoc undocumented⟩

/-! ## Edited content -/

/-- Two elements of a description, no documentation, are the same or one is the other one edited. -/
def Near (e e' : Element) : Prop :=
  e.tag.name.label ≠ ElementKind.doc.word ∧ (e' = e ∨ Edit e.node e'.node)

theorem Near.refl {e : Element} (h : e.tag.name.label ≠ ElementKind.doc.word) : Near e e :=
  ⟨h, .inl rfl⟩

theorem Near.sameTag {e e' : Element} (h : Near e e') : SameTag e.tag e'.tag := by
  rcases h.2 with rfl | hedit
  · exact .refl _
  · exact hedit.sameTag.1

/-- Elements that are near each other have the same attributes. -/
theorem Near.get? {e e' : Element} (h : Near e e') : e'.get? = e.get? := by
  funext attr
  simp only [Element.get?, Xml.Tag.get?, Xml.Tag.attribute?, h.sameTag.attributes]

/-- Items of which, kind by kind, the elements are near each other; the documentation is the
same. -/
structure NearItems (found found' : List (ElementKind × Element)) : Prop where
  docs : readDocs found' = readDocs found
  near : ∀ k, k ≠ .doc → List.Forall₂ Near (ofKind k found) (ofKind k found')

/-- Content with near items, in which stands only what may stand in the other. -/
structure NearContent (content content' : List Xml.Node) : Prop where
  items : NearItems (content.filterMap itemOf?) (content'.filterMap itemOf?)
  admits : ∀ strict parent, AdmitsAll strict parent content → AdmitsAll strict parent content'

/-- An item is found under the label of its kind. -/
theorem label_of_itemOf? {n : Xml.Node} {kind : ElementKind} {e : Element}
    (h : itemOf? n = some (kind, e)) : e.tag.name.label = kind.word := by
  by_cases hkind : kind = .doc
  · obtain rfl := node_of_itemOf? h
    rw [itemOf?] at h
    split at h
    · rename_i hdoc
      rw [hkind]
      exact hdoc
    · split at h
      · cases h
      · obtain ⟨k, hk, heq⟩ := Option.map_eq_some_iff.1 h
        obtain rfl := (Prod.mk.inj heq).1
        exact ElementKind.ofWord?_eq_some.1 hk
  · exact ((itemOf?_eq_some hkind).1 h).2.1

theorem label_ne_doc {kind : ElementKind} {e : Element} {content : List Xml.Node}
    (hkind : kind ≠ .doc) (h : e ∈ childrenOf kind content) :
    e.tag.name.label ≠ ElementKind.doc.word := by
  intro hdoc
  have hword := ElementKind.ofWord?_word kind
  rw [← ((mem_childrenOf hkind).1 h).2.1, hdoc, ElementKind.ofWord?_word] at hword
  exact hkind (Option.some.inj hword).symm

/-- Children that are no documentation are near themselves. -/
theorem near_childrenOf {kind : ElementKind} (hkind : kind ≠ .doc) (content : List Xml.Node) :
    List.Forall₂ Near (childrenOf kind content) (childrenOf kind content) :=
  List.forall₂_same.2 fun _ he => .refl (label_ne_doc hkind he)

/-- Contents with the same children of each kind have items that are near each other. -/
theorem NearItems.of_eq {content content' : List Xml.Node}
    (h : ∀ k, childrenOf k content' = childrenOf k content) :
    NearItems (content.filterMap itemOf?) (content'.filterMap itemOf?) := by
  refine ⟨congrArg (List.map readDoc) (h .doc), fun k hk => ?_⟩
  have hnear := near_childrenOf hk content
  nth_rewrite 2 [← h k] at hnear
  exact hnear

theorem NearContent.refl (content : List Xml.Node) : NearContent content content :=
  ⟨.of_eq fun _ => rfl, fun _ _ h => h⟩

/-- The children of a kind have its label. -/
theorem childrenOf_labelledNodes (kind : ElementKind) : ∀ content : List Xml.Node,
    childrenOf kind (labelledNodes kind.word content) = childrenOf kind content
  | [] => rfl
  | n :: rest => by
    have ih := childrenOf_labelledNodes kind rest
    by_cases hitem : ∃ e, itemOf? n = some (kind, e)
    · obtain ⟨e, he⟩ := hitem
      have hlabel := label_of_itemOf? he
      obtain rfl := node_of_itemOf? he
      have hkept : hasLabel kind.word (.element e.tag e.content) = true := by
        simpa [hasLabel] using hlabel
      rw [labelledNodes, List.filter_cons_of_pos hkept, childrenOf_cons_of_eq he,
        childrenOf_cons_of_eq he]
      exact congrArg (e :: ·) ih
    · rw [not_exists] at hitem
      rw [childrenOf_cons_of_ne hitem, labelledNodes, List.filter_cons]
      split
      · rw [childrenOf_cons_of_ne hitem]
        exact ih
      · exact ih

/-- What is nothing to a description is no item of it. -/
theorem itemOf?_of_isExtraneous {n : Xml.Node} (h : IsExtraneous n) : itemOf? n = none := by
  cases n with
  | element tag content =>
    rw [itemOf?, if_neg h.1, if_pos (by simp [h.2])]
  | text s | comment s | instruction s => rfl

theorem admits_of_isExtraneous {e : Element} (h : IsExtraneous e.node) (strict : Bool)
    (parent : ElementKind) : Admits strict parent e.tag := .inr (.inl h.2)

theorem childrenOf_append (kind : ElementKind) (xs ys : List Xml.Node) :
    childrenOf kind (xs ++ ys) = childrenOf kind xs ++ childrenOf kind ys := by
  rw [childrenOf, List.filterMap_append, ofKind_items_append, childrenOf, childrenOf]

theorem childrenOf_cons (kind : ElementKind) (n : Xml.Node) (xs : List Xml.Node) :
    childrenOf kind (n :: xs) = childrenOf kind [n] ++ childrenOf kind xs :=
  childrenOf_append kind [n] xs

/-- Extraneous pieces make no difference to the children. -/
theorem childrenOf_insert {n : Xml.Node} (h : IsExtraneous n) (kind : ElementKind)
    (before after : List Xml.Node) :
    childrenOf kind (before ++ n :: after) = childrenOf kind (before ++ after) := by
  have hnone : ∀ e, itemOf? n ≠ some (kind, e) := by
    intro e he
    rw [itemOf?_of_isExtraneous h] at he
    cases he
  rw [childrenOf_append, childrenOf_cons_of_ne hnone, ← childrenOf_append]

/-- An edited element is an item of the same kind as before. -/
theorem Edit.itemOf?_eq {e e' : Element} (h : Edit e.node e'.node) :
    itemOf? e'.node = (itemOf? e.node).map fun x => (x.1, e') := by
  obtain ⟨hlabel, hwadl, -, -⟩ := h.sameTag.1
  simp only [Element.node, itemOf?, hlabel, hwadl]
  split
  · rfl
  · split
    · rfl
    · simp [Function.comp_def]

/-- Whether a tag may stand in an element depends on its label and on being of descriptions. -/
theorem SameTag.admits {tag tag' : Xml.Tag} (h : SameTag tag tag') {strict : Bool}
    {parent : ElementKind} (hadmits : Admits strict parent tag) : Admits strict parent tag' := by
  unfold Admits at *
  rwa [h.label, h.isWadl]

/-- An edit is one of an element. -/
theorem Edit.elements {n n' : Xml.Node} (h : Edit n n') :
    ∃ e e' : Element, n = e.node ∧ n' = e'.node := by
  cases h with
  | move moved => cases moved <;> exact ⟨⟨_, _⟩, ⟨_, _⟩, rfl, rfl⟩
  | reorder | insert | remove | inside => exact ⟨⟨_, _⟩, ⟨_, _⟩, rfl, rfl⟩

/-- An edited element is of the same kind. -/
theorem Edit.childrenOf {e e' : Element} (h : Edit e.node e'.node) (kind : ElementKind) :
    childrenOf kind [e.node] = [] ∧ childrenOf kind [e'.node] = [] ∨
      childrenOf kind [e.node] = [e] ∧ childrenOf kind [e'.node] = [e'] ∧
      e.tag.name.label = kind.word := by
  have hitem := h.itemOf?_eq
  by_cases hkind : ∃ d, itemOf? e.node = some (kind, d)
  · obtain ⟨d, hd⟩ := hkind
    obtain rfl : e = d := Element.node_inj (node_of_itemOf? hd)
    rw [hd] at hitem
    exact .inr ⟨childrenOf_cons_of_eq hd, childrenOf_cons_of_eq hitem, label_of_itemOf? hd⟩
  · rw [not_exists] at hkind
    refine .inl ⟨childrenOf_cons_of_ne hkind, childrenOf_cons_of_ne fun d hd => ?_⟩
    rw [hitem] at hd
    obtain ⟨⟨k, d'⟩, hd', heq⟩ := Option.map_eq_some_iff.1 hd
    obtain rfl : k = kind := (Prod.mk.inj heq).1
    exact hkind d' hd'

/-- The content is near if one element of it is edited. -/
theorem NearContent.replace {n n' : Xml.Node} (h : Edit n n') (before after : List Xml.Node) :
    NearContent (before ++ n :: after) (before ++ n' :: after) := by
  obtain ⟨e, e', rfl, rfl⟩ := h.elements
  obtain ⟨htag, hdoc⟩ := h.sameTag
  have hsplit : ∀ k n, Reader.childrenOf k (before ++ n :: after) =
      Reader.childrenOf k before ++ (Reader.childrenOf k [n] ++ Reader.childrenOf k after) :=
        fun k n => by
    rw [childrenOf_append, childrenOf_cons]
  constructor
  · constructor
    · show (Reader.childrenOf .doc _).map readDoc = (Reader.childrenOf .doc _).map readDoc
      rw [hsplit, hsplit]
      rcases h.childrenOf .doc with ⟨hnone, hnone'⟩ | ⟨hone, hone', hlabel⟩
      · rw [hnone, hnone']
      · simp only [hone, hone', List.map_append, List.map_cons, hdoc hlabel]
    · intro k hk
      show List.Forall₂ Near (Reader.childrenOf k _) (Reader.childrenOf k _)
      rw [hsplit, hsplit]
      refine List.rel_append (near_childrenOf hk before)
        (List.rel_append ?_ (near_childrenOf hk after))
      rcases h.childrenOf k with ⟨hnone, hnone'⟩ | ⟨hone, hone', -⟩
      · rw [hnone, hnone']
        exact .nil
      · have hlabel : e.tag.name.label ≠ ElementKind.doc.word :=
          label_ne_doc hk (hone ▸ List.mem_singleton_self e)
        rw [hone, hone']
        exact .cons ⟨hlabel, .inr h⟩ .nil
  · intro strict parent hall x hx
    rcases List.mem_append.1 hx with hx | hx
    · exact hall x (List.mem_append_left _ hx)
    · rcases List.mem_cons.1 hx with heq | hx
      · obtain rfl := Element.node_inj heq
        exact htag.admits (hall e (by simp))
      · exact hall x (by simp [hx])

/-- An edited element has near content. -/
theorem Near.content {e e' : Element} (h : Near e e') : NearContent e.content e'.content := by
  obtain ⟨hdoc, rfl | hedit⟩ := h
  · exact .refl _
  · obtain ⟨tag, content⟩ := e
    obtain ⟨tag', content'⟩ := e'
    simp only [Element.node] at hedit
    cases hedit with
    | move moved =>
      cases moved with
      | here => exact .refl _
      | inside moved => exact .replace (.move moved) _ _
    | reorder undocumented perm kept =>
      refine ⟨.of_eq fun k => ?_, fun strict parent hall x hx => hall x (perm.mem_iff.1 hx)⟩
      rw [← childrenOf_labelledNodes, kept, childrenOf_labelledNodes]
    | insert undocumented extraneous =>
      refine ⟨.of_eq fun k => childrenOf_insert extraneous k _ _, fun strict parent hall x hx => ?_⟩
      rcases List.mem_append.1 hx with hx | hx
      · exact hall x (List.mem_append_left _ hx)
      · rcases List.mem_cons.1 hx with rfl | hx
        · exact admits_of_isExtraneous extraneous strict parent
        · exact hall x (List.mem_append_right _ hx)
    | remove undocumented extraneous =>
      refine ⟨.of_eq fun k => (childrenOf_insert extraneous k _ _).symm,
        fun strict parent hall x hx => hall x ?_⟩
      simp only [List.mem_append, List.mem_cons] at hx ⊢
      exact hx.imp id .inr
    | inside undocumented edit => exact .replace edit _ _

/-! ## Readers that agree -/

/-- If `x` succeeds, so does `y`, whatever there was to notice, and what they give is related. -/
def AgreesBy {α β : Type} (R : α → β → Prop) (x : Reading α) (y : Reading β) : Prop :=
  ∀ a, Yields x a → ∃ b, R a b ∧ Always y b

/-- What `x` gives, `y` gives, whatever there was to notice. -/
def Agrees {α : Type} (x y : Reading α) : Prop := ∀ a, Yields x a → Always y a

section Agrees

variable {α β γ δ : Type}

theorem Agrees.pure (a : α) : Agrees (Pure.pure a) (Pure.pure a) :=
  fun _ h => always_pure_of_eq h.pure

/-- Readings agree step by step. -/
theorem Agrees.bind {x y : Reading α} {f g : α → Reading β} (hx : Agrees x y)
    (hf : ∀ a, Agrees (f a) (g a)) : Agrees (x >>= f) (y >>= g) := by
  intro b h
  obtain ⟨a, ha, hb⟩ := h.bind
  exact (hx a ha).bind (hf a b hb)

theorem Agrees.map {x y : Reading α} {f : α → β} (hx : Agrees x y) :
    Agrees (f <$> x) (f <$> y) := by
  intro b h
  obtain ⟨a, ha, rfl⟩ := h.map
  exact (hx a ha).map

/-- Readings agree if what follows agrees on related results. -/
theorem AgreesBy.bind {R : α → β → Prop} {x : Reading α} {y : Reading β} {f : α → Reading γ}
    {g : β → Reading γ} (hx : AgreesBy R x y) (hf : ∀ a b, R a b → Agrees (f a) (g b)) :
    Agrees (x >>= f) (y >>= g) := by
  intro c h
  obtain ⟨a, ha, hc⟩ := h.bind
  obtain ⟨b, hab, hb⟩ := hx a ha
  exact hb.bind (hf a b hab c hc)

/-- Lists are read alike if their members are, one by one. -/
theorem Agrees.mapM {R : α → β → Prop} {f : α → Reading γ} {g : β → Reading γ}
    {xs : List α} {ys : List β} (h : List.Forall₂ R xs ys)
    (hf : ∀ x y, x ∈ xs → R x y → Agrees (f x) (g y)) : Agrees (xs.mapM f) (ys.mapM g) := by
  induction h with
  | nil =>
    rw [List.mapM_nil, List.mapM_nil]
    exact .pure []
  | @cons x y xs ys hxy _ ih =>
    rw [List.mapM_cons, List.mapM_cons]
    refine (hf x y List.mem_cons_self hxy).bind fun _ => ?_
    exact (ih fun x' y' hx' => hf x' y' (List.mem_cons_of_mem x hx')).bind fun _ => .pure _

/-- What is read of each member of a list is read of each member of a related one. -/
theorem forall₂_always_of_agrees {R : α → β → Prop} {f : α → Reading γ}
    {g : β → Reading γ} {xs : List α} {ys : List β} (h : List.Forall₂ R xs ys)
    (hf : ∀ x y, R x y → Agrees (f x) (g y)) {cs : List γ}
    (hcs : List.Forall₂ (fun x c => Yields (f x) c) xs cs) :
    List.Forall₂ (fun y c => Always (g y) c) ys cs := by
  induction h generalizing cs with
  | nil =>
    cases hcs
    exact .nil
  | cons hxy _ ih =>
    obtain ⟨c, rest, hc, hrest, rfl⟩ := List.forall₂_cons_left_iff.1 hcs
    exact .cons (hf _ _ hxy c hc) (ih hrest)

/-- A reader that does not look at the notices agrees with itself. -/
theorem Spares.agrees {x : Reading α} (h : Spares x) : Agrees x x := by
  rintro a ⟨s, t, hgives⟩ s'
  have hsame := h.same s s'
  rcases hrun : Id.run (x.run.run s') with ⟨e | b, t'⟩
  · rw [hgives, hrun] at hsame
    cases hsame
  · rw [hgives, hrun] at hsame
    obtain rfl := Except.ok.inj hsame
    exact ⟨t', hrun⟩

/-- A check that does not look at the element agrees with itself. -/
theorem refuse_agrees {found : Option α} {error : α → DocumentError} :
    Agrees (refuse found error) (refuse found error) := by
  intro u h
  rw [yields_refuse h]
  exact always_pure u

/-- The items of near content are near. -/
theorem items_agree {pos : Position} {k : ElementKind} {content content' : List Xml.Node}
    (h : NearContent content content') :
    AgreesBy NearItems (items pos k content) (items pos k content') := by
  intro found hfound
  refine ⟨content'.filterMap itemOf?, ?_,
    always_items_of_admits (h.admits _ _ (admitsAll_of_yields hfound))⟩
  rw [← filterMap_of_items hfound]
  exact h.items

end Agrees

/-! ## Readers of edited elements -/

section Readers

variable {pos : Position} {k : ElementKind} {e e' : Element}
    {found found' : List (ElementKind × Element)}

/-- Near items of a kind are read one by one. -/
theorem NearItems.mapM {α : Type} (h : NearItems found found') (hk : k ≠ .doc)
    {read : Element → Reading α} (hread : ∀ e e', Near e e' → Agrees (read e) (read e')) :
    Agrees ((ofKind k found).mapM read) ((ofKind k found').mapM read) :=
  .mapM (h.near k hk) fun e e' _ => hread e e'

theorem required_eq (h : Near e e') (kind : ElementKind) (attr : String) :
    required pos e' kind attr = required pos e kind attr := by
  simp only [required, h.get?]

theorem requireId_eq (h : Near e e') (location kind : ElementKind) :
    requireId pos location e' kind = requireId pos location e kind := by
  simp only [requireId, required_eq h]

theorem flag_eq (h : Near e e') (attr : String) : flag pos e' attr = flag pos e attr := by
  simp only [flag, h.get?]

/-- A style is read from the attributes alone. -/
theorem readStyle_eq (h : Near e e') (location : ElementKind) :
    readStyle pos e' location = readStyle pos e location := by
  simp only [readStyle, h.get?]

theorem readOption_agrees (h : Near e e') : Agrees (readOption pos e) (readOption pos e') := by
  simp only [readOption, required_eq h, h.get?]
  refine required_spares.agrees.bind fun _ => (items_agree h.content).bind fun _ _ hfound => ?_
  rw [hfound.docs]
  exact .pure _

theorem readLink_agrees (h : Near e e') : Agrees (readLink pos e) (readLink pos e') := by
  simp only [readLink, h.get?]
  refine (readTarget_spares _).agrees.bind fun _ =>
    (items_agree h.content).bind fun _ _ hfound => ?_
  rw [hfound.docs]
  exact .pure _

theorem readParamBody_agrees (h : Near e e') :
    Agrees (readParamBody pos k e) (readParamBody pos k e') := by
  simp only [readParamBody, required_eq h, readStyle_eq h, flag_eq h, h.get?]
  refine required_spares.agrees.bind fun _ => readStyle_spares.agrees.bind fun _ =>
    (items_agree h.content).bind fun _ _ hfound => ?_
  refine (hfound.mapM (by decide) fun _ _ => readOption_agrees).bind fun _ =>
    refuse_agrees.bind fun _ =>
    flag_spares.agrees.bind fun _ => flag_spares.agrees.bind fun _ => ?_
  refine (hfound.mapM (by decide) fun _ _ => readLink_agrees).bind fun _ => ?_
  rw [hfound.docs]
  exact .pure _

theorem readParam_agrees (h : Near e e') : Agrees (readParam pos k e) (readParam pos k e') := by
  simp only [readParam, requireId_eq h, aliasId, h.get?]
  refine requireId_spares.agrees.bind fun _ => ?_
  split
  · exact reference_spares.agrees.bind fun _ => .pure _
  · exact (readParamBody_agrees h).bind fun _ => .pure _

/-- The params among items that are near each other are read alike. -/
theorem readParams_agrees (h : NearItems found found') :
    Agrees (readParams pos k found) (readParams pos k found') :=
  (h.mapM (by decide) fun _ _ => readParam_agrees).bind fun _ => refuse_agrees.bind fun _ => .pure _

theorem readRepresentation_agrees (h : Near e e') :
    Agrees (readRepresentation pos k e) (readRepresentation pos k e') := by
  simp only [readRepresentation, readRepresentationBody, requireId_eq h, aliasId, h.get?]
  refine requireId_spares.agrees.bind fun _ => ?_
  split
  · exact reference_spares.agrees.bind fun _ => .pure _
  · refine Agrees.bind ((items_agree h.content).bind fun _ _ hfound => ?_) fun _ => .pure _
    refine (readParams_agrees hfound).bind fun _ => ?_
    rw [hfound.docs]
    exact .pure _

/-- The representations among items that are near each other are read alike. -/
theorem readRepresentations_agrees (h : NearItems found found') :
    Agrees (readRepresentations pos k found) (readRepresentations pos k found') :=
  h.mapM (by decide) fun _ _ => readRepresentation_agrees

theorem readRequest_agrees (h : Near e e') : Agrees (readRequest pos e) (readRequest pos e') := by
  refine (items_agree h.content).bind fun _ _ hfound => ?_
  refine (readParams_agrees hfound).bind fun _ =>
    (readRepresentations_agrees hfound).bind fun _ => ?_
  rw [hfound.docs]
  exact .pure _

theorem readResponse_agrees (h : Near e e') :
    Agrees (readResponse pos e) (readResponse pos e') := by
  simp only [readResponse, h.get?]
  refine readStatus_spares.agrees.bind fun _ => (items_agree h.content).bind fun _ _ hfound => ?_
  refine (readParams_agrees hfound).bind fun _ =>
    (readRepresentations_agrees hfound).bind fun _ => ?_
  rw [hfound.docs]
  exact .pure _

theorem readOnlyRequest_agrees {es es' : List Element} (h : List.Forall₂ Near es es') :
    Agrees (readOnlyRequest pos es) (readOnlyRequest pos es') := by
  match h with
  | .nil => exact .pure none
  | .cons he .nil => exact (readRequest_agrees he).map
  | .cons _ (.cons _ _) => exact fun _ hyields => absurd hyields not_yields_throw

theorem readMethodBody_agrees (h : Near e e') :
    Agrees (readMethodBody pos e) (readMethodBody pos e') := by
  simp only [readMethodBody, required_eq h, h.get?]
  refine required_spares.agrees.bind fun _ => (items_agree h.content).bind fun _ _ hfound => ?_
  refine (readOnlyRequest_agrees (hfound.near .request (by decide))).bind fun _ => ?_
  refine (hfound.mapM (by decide) fun _ _ => readResponse_agrees).bind fun _ => ?_
  rw [hfound.docs]
  exact .pure _

theorem readMethod_agrees (h : Near e e') : Agrees (readMethod pos e) (readMethod pos e') := by
  simp only [readMethod, insideMethod, h.get?]
  split
  · exact reference_spares.agrees.bind fun _ => .pure _
  · exact (readMethodBody_agrees h).bind fun _ => .pure _

/-- The methods among items that are near each other are read alike. -/
theorem readMethods_agrees (h : NearItems found found') :
    Agrees (readMethods pos found) (readMethods pos found') :=
  (h.mapM (by decide) fun _ _ => readMethod_agrees).bind fun _ =>
    refuse_agrees.bind fun _ => .pure _

theorem readTopMethod_agrees (h : Near e e') :
    Agrees (readTopMethod pos e) (readTopMethod pos e') := by
  simp only [readTopMethod, insideMethod, requireId_eq h, h.get?]
  exact requireId_spares.agrees.bind fun _ => readMethodBody_agrees h

/-- A resource is read alike if what is below it is. -/
theorem readResource_agrees {inherited : List String}
    {below below' : Position → List String → Reading (List Resource)} (h : Near e e')
    (hbelow : ∀ inside declared, Agrees (below inside declared) (below' inside declared)) :
    Agrees (readResource pos inherited e below) (readResource pos inherited e' below') := by
  simp only [readResource, h.get?]
  refine (items_agree h.content).bind fun _ _ hfound => (readParams_agrees hfound).bind fun _ => ?_
  refine (readMethods_agrees hfound).bind fun _ =>
    (Spares.mapM fun _ => reference_spares).agrees.bind fun _ => ?_
  refine (hbelow _ _).bind fun _ => refuse_agrees.bind fun _ => ?_
  rw [hfound.docs]
  exact .pure _

/-- A child is smaller than the content it stands in, so that resources can be read by their
size. -/
theorem sizeOf_lt_of_mem_childrenOf {kind : ElementKind} {content : List Xml.Node}
    (hkind : kind ≠ .doc) (h : e ∈ childrenOf kind content) :
    sizeOf e.content < sizeOf content := by
  have hsize := List.sizeOf_lt_of_mem ((mem_childrenOf hkind).1 h).1
  simp only [Element.node, Xml.Node.element.sizeOf_spec] at hsize
  omega

/-- The resources below near resources are near, and smaller than what they stand in. -/
theorem readResourceAt_agrees {inherited : List String} (h : Near e e') :
    Agrees (readResourceAt pos inherited e) (readResourceAt pos inherited e') := by
  induction hsize :
    sizeOf e.content using Nat.strong_induction_on generalizing e e' pos inherited with
  | _ n ih =>
    refine readResource_agrees h fun inside declared => ?_
    rw [readResources_eq_mapM, readResources_eq_mapM]
    refine .mapM (h.content.items.near .resource (by decide)) fun x x' hx hnear => ?_
    exact ih (sizeOf x.content) (hsize ▸ sizeOf_lt_of_mem_childrenOf (by decide) hx) hnear rfl

/-- Resources in contents that are near each other are read alike, by induction on the size of an
element. -/
theorem readResources_agrees {content content' : List Xml.Node} {inherited : List String}
    (h : NearContent content content') :
    Agrees (readResources pos inherited content) (readResources pos inherited content') := by
  rw [readResources_eq_mapM, readResources_eq_mapM]
  exact .mapM (h.items.near .resource (by decide)) fun _ _ _ => readResourceAt_agrees

theorem readResourceType_agrees (h : Near e e') :
    Agrees (readResourceType pos e) (readResourceType pos e') := by
  simp only [readResourceType, required_eq h, h.get?]
  refine required_spares.agrees.bind fun _ => (items_agree h.content).bind fun _ _ hfound => ?_
  refine (readParams_agrees hfound).bind fun _ => (readMethods_agrees hfound).bind fun _ => ?_
  refine (readResources_agrees h.content).bind fun _ => ?_
  rw [hfound.docs]
  exact .pure _

theorem readGroup_agrees (h : Near e e') : Agrees (readGroup pos e) (readGroup pos e') := by
  simp only [readGroup, h.get?]
  exact (items_agree h.content).bind fun _ _ _ =>
    (readResources_agrees h.content).bind fun _ => .pure _

theorem readGrammars_agrees (h : Near e e') :
    Agrees (readGrammars pos e) (readGrammars pos e') := by
  refine (items_agree h.content).bind fun _ _ hfound => hfound.mapM (by decide) fun x x' hx => ?_
  rw [required_eq hx]
  exact required_spares.agrees

/-- What is gathered from items is gathered from near items. -/
theorem Gathered.near {parts : Application} (h : Gathered Yields pos found parts)
    (hfound : NearItems found found') : Gathered Always pos found' parts := by
  have hread : ∀ {α : Type} {kind : ElementKind} {read : Element → Reading α} {as : List α},
      kind ≠ .doc → (∀ e e', Near e e' → Agrees (read e) (read e')) →
        List.Forall₂ (fun e a => Yields (read e) a) (ofKind kind found) as →
          List.Forall₂ (fun e a => Always (read e) a) (ofKind kind found') as :=
    fun hkind hagrees has => forall₂_always_of_agrees (hfound.near _ hkind) hagrees has
  obtain ⟨htypes, hreps, hparams, hmethods, ⟨hrefs, hgrammars, hflat⟩, hgroups⟩ := h
  exact ⟨hread (by decide) (fun _ _ => readResourceType_agrees) htypes,
    hread (by decide) (fun _ _ => readRepresentation_agrees) hreps,
    hread (by decide) (fun _ _ => readParam_agrees) hparams,
    hread (by decide) (fun _ _ => readTopMethod_agrees) hmethods,
    ⟨hrefs, hread (by decide) (fun _ _ => readGrammars_agrees) hgrammars, hflat⟩,
    hread (by decide) (fun _ _ => readGroup_agrees) hgroups⟩

/-- What is read of a root is read of an edited one, if the identifiers of its top-level definitions
differ. -/
theorem readApplication_agrees {base : String} {strict : Bool} {app : Application}
    (h : Edit e.node e'.node) (happ : Yields (readApplication base strict e.node) app)
    (hdistinct : app.TopDistinct) : Always (readApplication base strict e'.node) app := by
  obtain ⟨htag, -⟩ := h.sameTag
  simp only [Element.node, readApplication, htag.label, htag.isWadl] at happ ⊢
  split at happ
  · obtain ⟨_, hthrow, -⟩ := happ.bind
    exact absurd hthrow not_yields_throw
  · rename_i hroot
    have hdoc : e.tag.name.label ≠ ElementKind.doc.word := by
      intro hdoc
      exact hroot (.inl (by rw [hdoc]; decide))
    obtain ⟨found, hfound, happ⟩ := happ.bind
    obtain ⟨found', hnear, hfound'⟩ := items_agree (Near.content ⟨hdoc, .inr h⟩) found hfound
    obtain ⟨parts, rfl, hparts⟩ := gathered_of_yields happ
    rw [if_neg hroot]
    refine hfound'.bind ?_
    rw [hnear.docs]
    exact always_foldlM_of_gathered (hparts.near hnear) hdistinct

end Readers

/-- What is read of a tree is read of an edited one. -/
theorem readDescription_agrees {base : String} {strict : Bool} {root root' : Xml.Node}
    (h : Edit root root') :
    Agrees (readDescription base strict root) (readDescription base strict root') := by
  obtain ⟨e, e', rfl, rfl⟩ := h.elements
  intro app happ
  have hsound := readDescription_sound_loose happ
  have hdistinct : app.TopDistinct :=
    ⟨hsound.resourceTypeIds, hsound.representationIds, hsound.paramIds, hsound.methodIds⟩
  obtain ⟨app', hread, happ⟩ := happ.bind
  obtain ⟨index, hindex, happ⟩ := happ.bind
  obtain rfl := happ.pure
  exact (readApplication_agrees h hread hdistinct).bind
    ((always_lift hindex.lift).bind (always_pure app'))

/-- What is read of a root does not depend on what was noticed before. -/
theorem readDescription_agrees_self {base : String} {strict : Bool} (root : Xml.Node) :
    Agrees (readDescription base strict root) (readDescription base strict root) := by
  intro app happ
  cases root with
  | element tag content =>
    obtain ⟨name, attributes⟩ := tag
    by_cases hwadl : name.isWadl = true
    · exact readDescription_agrees (.move (.here rfl hwadl hwadl)) app happ
    · obtain ⟨_, hread, -⟩ := happ.bind
      simp only [readApplication] at hread
      split at hread
      · obtain ⟨_, hthrow, -⟩ := hread.bind
        exact absurd hthrow not_yields_throw
      · rename_i hroot
        exact absurd (.inr (by simpa using hwadl)) hroot
  | text s | comment s | instruction s =>
    obtain ⟨_, hread, -⟩ := happ.bind
    exact absurd hread not_yields_throw

end Reader

open Reader

/-- What is read of a tree is read, too, of every tree that comes from it by edits: by putting
children with different labels in another order, by inserting and removing what does not belong to
descriptions, outside of documentation, and by moving elements between the namespace of descriptions
and none. -/
theorem readDescription_edited {base : String} {strict : Bool} {root root' : Xml.Node}
    {app : Application} (h : Relation.ReflTransGen Edit root root')
    (happ : Yields (readDescription base strict root) app) :
    Always (readDescription base strict root') app := by
  induction h with
  | refl => exact readDescription_agrees_self root app happ
  | tail _ hedit ih =>
    obtain ⟨t, ht⟩ := ih []
    exact readDescription_agrees hedit app ht.yields

/-- Documentation of which the markup holds an element in a namespace. -/
def emphasized (space : Option String) : Xml.Node :=
  .element ⟨.plain "doc", []⟩ [.text "one ", .element ⟨⟨space, "em"⟩, []⟩ [.text "shelf"]]

/-- A param and a method, the definitions of the two descriptions below. -/
def shelfParam : Xml.Node :=
  .element ⟨.plain "param", [(.plain "id", "p"), (.plain "name", "p")]⟩ []

def shelfMethod : Xml.Node :=
  .element ⟨.plain "method", [(.plain "id", "m"), (.plain "name", "GET")]⟩ []

/-- A description, and the same one with its definitions in another order, with an element of
another namespace and with an element that has left the namespace of descriptions. -/
def shelfRoot : Xml.Node :=
  .element ⟨.plain "application", []⟩ [emphasized (some wadlSpace), shelfParam, shelfMethod]

def editedShelfRoot : Xml.Node :=
  .element ⟨.plain "application", []⟩
    [emphasized none, .element ⟨⟨some "urn:x", "note"⟩, []⟩ [], shelfMethod, shelfParam]

theorem readDescription_edited_shelf :
    ∃ app, Relation.ReflTransGen Edit shelfRoot editedShelfRoot ∧
      Yields (readDescription "http://h/d" true shelfRoot) app ∧
        Always (readDescription "http://h/d" true editedShelfRoot) app := by
  obtain ⟨app, t, happ⟩ :=
    exists_gives (x := readDescription "http://h/d" true shelfRoot) (s := []) (by decide +kernel)
  have hmove : Edit shelfRoot
      (.element ⟨.plain "application", []⟩ [emphasized none, shelfParam, shelfMethod]) :=
    .move (@Moved.inside _ [] _ _ _ (@Moved.inside _ [.text "one "] _ _ _ (.here rfl rfl rfl)))
  have horder : Edit
      (.element ⟨.plain "application", []⟩ [emphasized none, shelfParam, shelfMethod])
      (.element ⟨.plain "application", []⟩ [emphasized none, shelfMethod, shelfParam]) := by
    refine .reorder (by decide) (.cons _ (.swap _ _ _)) fun label => ?_
    by_cases hparam : "param" = label
    · subst hparam
      rfl
    · have hother : hasLabel label shelfParam = false := by
        simpa [hasLabel, shelfParam, Xml.Name.plain] using hparam
      simp [labelledNodes, List.filter_cons, hother]
  have hinsert :
      Edit (.element ⟨.plain "application", []⟩ [emphasized none, shelfMethod, shelfParam])
        editedShelfRoot :=
    @Edit.insert _ [emphasized none] _ _ (by decide) ⟨by decide, by decide⟩
  have hedits : Relation.ReflTransGen Edit shelfRoot editedShelfRoot :=
    ((Relation.ReflTransGen.single hmove).tail horder).tail hinsert
  exact ⟨app, hedits, happ.yields, readDescription_edited hedits happ.yields⟩

end Wadl
