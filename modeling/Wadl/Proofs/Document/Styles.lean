import Wadl.Document.Sourceless
import Wadl.Proofs.Document.Children

/-!
# Styles that are not customary

`Application.placedStyles` are the styles of the params of a description, each with the kind of
element that the param stands in, and `Application.unusualStyles` are those that are not customary
there. Reading warns of a style only where an attribute states it: of the styles that are not
customary, lenient reading passes over those that params of responses have by default
(`told_readDescription`). Where every param states its style, and nothing stands that descriptions
do not have (`Reader.Explicit`), the warnings tell of all of them, and there are no other notices.
`Reader.Tells` says so of a reader, and it goes through a sequence of steps (`Tells.bind`).
-/

namespace Wadl

/-! ## The styles of a description -/

/-- The style of a param, where the param stands, and the label of the param. -/
structure PlacedStyle where
  location : ElementKind
  style : ParamStyle
  label : String
  deriving DecidableEq

/-- Whether a style is not customary where it stands. -/
def PlacedStyle.isUnusual (s : PlacedStyle) : Bool := !s.location.styles.contains s.style

/-- What a warning of the style tells: the words for the style and the element, and the label of the
param. -/
def PlacedStyle.told (s : PlacedStyle) : String × String × String :=
  (s.style.word, s.location.word, s.label)

/-- What a notice tells of the style of a param, if it does so. -/
def Notice.told? : Notice → Option (String × String × String)
  | unusualStyle word location path => some (word, location, path.getLastD "")
  | _ => none

/-- The style of a param that stands in an element of kind `location`. -/
def Param.placedStyle (location : ElementKind) (p : Param) : PlacedStyle :=
  ⟨location, p.style, labelled "param" (firstNonEmpty [some p.name, p.id])⟩

/-- The style of a param, nothing for a reference. -/
def ParamItem.placedStyles (location : ElementKind) : ParamItem → List PlacedStyle
  | .inline p => [p.placedStyle location]
  | .ref .. => []

/-- The styles of the params of a representation, nothing for a reference. -/
def RepresentationItem.placedStyles : RepresentationItem → List PlacedStyle
  | .inline r => r.params.flatMap (·.placedStyles .representation)
  | .ref .. => []

/-- The styles in a request. -/
def Request.placedStyles (r : Request) : List PlacedStyle :=
  r.params.flatMap (·.placedStyles .request) ++ r.representations.flatMap (·.placedStyles)

/-- The styles in a response. -/
def Response.placedStyles (r : Response) : List PlacedStyle :=
  r.params.flatMap (·.placedStyles .response) ++ r.representations.flatMap (·.placedStyles)

/-- The styles in a method. -/
def Method.placedStyles (m : Method) : List PlacedStyle :=
  m.request.toList.flatMap (·.placedStyles) ++ m.responses.flatMap (·.placedStyles)

/-- The styles in a method, nothing for a reference. -/
def MethodItem.placedStyles : MethodItem → List PlacedStyle
  | .inline m => m.placedStyles
  | .ref _ => []

mutual

/-- The styles in a resource and those below it. -/
def Resource.placedStyles : Resource → List PlacedStyle
  | ⟨_, _, _, _, params, methods, resources, _⟩ =>
    params.flatMap (·.placedStyles .resource) ++ methods.flatMap (·.placedStyles) ++
      placedStylesList resources

/-- The styles in some resources and those below them. -/
def placedStylesList : List Resource → List PlacedStyle
  | [] => []
  | r :: rs => r.placedStyles ++ placedStylesList rs

end

/-- The styles in a resource type. -/
def ResourceType.placedStyles (t : ResourceType) : List PlacedStyle :=
  t.params.flatMap (·.placedStyles .resourceType) ++ t.methods.flatMap (·.placedStyles) ++
    placedStylesList t.resources

/-- The styles in a group of resources. -/
def ResourceGroup.placedStyles (g : ResourceGroup) : List PlacedStyle :=
  placedStylesList g.resources

/-- The styles of all params of a description. -/
def Application.placedStyles (app : Application) : List PlacedStyle :=
  app.resourceTypes.flatMap (·.placedStyles) ++ app.representations.flatMap (·.placedStyles) ++
    app.params.flatMap (·.placedStyles .application) ++ app.methods.flatMap (·.placedStyles) ++
    app.resources.flatMap (·.placedStyles)

/-- The styles of a description that are not customary where they stand. -/
def Application.unusualStyles (app : Application) : List PlacedStyle :=
  app.placedStyles.filter (·.isUnusual)

/-- A style that is read from a word is written as this word. -/
theorem ParamStyle.word_of_ofWord? {word : String} {style : ParamStyle}
    (h : ofWord? word = some style) : style.word = word := by
  have hfound := List.find?_some h
  simpa using hfound

/-! ## Styles and sources -/

section Sourceless

theorem flatMap_map_of_forall {α β : Type} {f : α → List β} {g : α → α}
    (h : ∀ x, f (g x) = f x) (xs : List α) : (xs.map g).flatMap f = xs.flatMap f := by
  rw [List.flatMap_map]
  exact List.flatMap_congr fun x _ => h x

theorem ParamItem.placedStyles_sourceless (location : ElementKind) (item : ParamItem) :
    item.sourceless.placedStyles location = item.placedStyles location := by
  cases item <;> rfl

theorem RepresentationItem.placedStyles_sourceless (item : RepresentationItem) :
    item.sourceless.placedStyles = item.placedStyles := by
  cases item with
  | inline r => exact flatMap_map_of_forall (ParamItem.placedStyles_sourceless _) r.params
  | ref r id => rfl

theorem Request.placedStyles_sourceless (r : Request) :
    r.sourceless.placedStyles = r.placedStyles := by
  simp only [Request.placedStyles, Request.sourceless,
    flatMap_map_of_forall (ParamItem.placedStyles_sourceless _),
    flatMap_map_of_forall RepresentationItem.placedStyles_sourceless]

theorem Response.placedStyles_sourceless (r : Response) :
    r.sourceless.placedStyles = r.placedStyles := by
  simp only [Response.placedStyles, Response.sourceless,
    flatMap_map_of_forall (ParamItem.placedStyles_sourceless _),
    flatMap_map_of_forall RepresentationItem.placedStyles_sourceless]

theorem Method.placedStyles_sourceless (m : Method) :
    m.sourceless.placedStyles = m.placedStyles := by
  simp only [Method.placedStyles, Method.sourceless, Option.toList_map,
    flatMap_map_of_forall Request.placedStyles_sourceless,
    flatMap_map_of_forall Response.placedStyles_sourceless]

theorem MethodItem.placedStyles_sourceless (item : MethodItem) :
    item.sourceless.placedStyles = item.placedStyles := by
  cases item with
  | inline m => exact m.placedStyles_sourceless
  | ref r => rfl

mutual

/-- The styles in a resource do not depend on sources, by induction on the tree of resources. -/
theorem Resource.placedStyles_sourceless :
    ∀ r : Resource, r.sourceless.placedStyles = r.placedStyles
  | ⟨id, path, types, queryType, params, methods, resources, docs⟩ => by
    simp only [Resource.sourceless, Resource.placedStyles,
      flatMap_map_of_forall (ParamItem.placedStyles_sourceless _),
      flatMap_map_of_forall MethodItem.placedStyles_sourceless,
      placedStylesList_sourceless resources]

theorem placedStylesList_sourceless :
    ∀ rs : List Resource, placedStylesList (sourcelessList rs) = placedStylesList rs
  | [] => rfl
  | r :: rs => by
    rw [sourcelessList, placedStylesList, placedStylesList, Resource.placedStyles_sourceless r,
      placedStylesList_sourceless rs]

end

theorem ResourceType.placedStyles_sourceless (t : ResourceType) :
    t.sourceless.placedStyles = t.placedStyles := by
  simp only [ResourceType.placedStyles, ResourceType.sourceless, placedStylesList_sourceless,
    flatMap_map_of_forall (ParamItem.placedStyles_sourceless _),
    flatMap_map_of_forall MethodItem.placedStyles_sourceless]

theorem ResourceGroup.placedStyles_sourceless (g : ResourceGroup) :
    g.sourceless.placedStyles = g.placedStyles := placedStylesList_sourceless g.resources

/-- The styles of a description do not depend on sources. -/
theorem Application.placedStyles_sourceless (app : Application) :
    app.sourceless.placedStyles = app.placedStyles := by
  simp only [Application.placedStyles, Application.sourceless,
    flatMap_map_of_forall ResourceType.placedStyles_sourceless,
    flatMap_map_of_forall RepresentationItem.placedStyles_sourceless,
    flatMap_map_of_forall (ParamItem.placedStyles_sourceless _),
    flatMap_map_of_forall Method.placedStyles_sourceless,
    flatMap_map_of_forall ResourceGroup.placedStyles_sourceless]

end Sourceless

/-- The styles of resources are those of each of them, in order. -/
theorem placedStylesList_eq (rs : List Resource) :
    placedStylesList rs = rs.flatMap (·.placedStyles) := by
  induction rs with
  | nil => rfl
  | cons r rs ih => rw [placedStylesList, ih, List.flatMap_cons]

namespace Reader

/-! ## Elements that state every style -/

/-- An element of kind `k` in which every param states its style, as it does itself if it is one,
and in which nothing stands that descriptions do not have. -/
inductive Explicit : ElementKind → Element → Prop where
  | intro {k : ElementKind} {e : Element}
      (states : k = .param → e.get? "href" = none → (e.get? "style").isSome = true)
      (known : ∀ child : Element, child.node ∈ e.content → (itemOf? child.node).isSome = true)
      (inside : ∀ p ∈ e.content.filterMap itemOf?, Explicit p.1 p.2) : Explicit k e

/-- A param that stands where it is written states its style. -/
theorem Explicit.states {k : ElementKind} {e : Element} (h : Explicit k e) (hk : k = .param)
    (hhref : e.get? "href" = none) : (e.get? "style").isSome = true := by
  cases h with
  | intro states => exact states hk hhref

/-- Explicit elements hold only what descriptions have. -/
theorem Explicit.known {k : ElementKind} {e : Element} (h : Explicit k e) :
    ∀ child : Element, child.node ∈ e.content → (itemOf? child.node).isSome = true := by
  cases h with
  | intro _ known => exact known

/-- What an explicit element holds is explicit. -/
theorem Explicit.inside {k : ElementKind} {e : Element} (h : Explicit k e) :
    ∀ p ∈ e.content.filterMap itemOf?, Explicit p.1 p.2 := by
  cases h with
  | intro _ _ inside => exact inside

/-! ## What notices tell of styles -/

/-- Notices tell of the styles that are not customary, but for some that params of responses have by
default. If all styles are `explicit`, they tell of all that are not customary, and of nothing
else. -/
structure Told (explicit : Prop) (styles : List PlacedStyle) (notices : List Notice) : Prop where
  all : ∃ warned silent : List PlacedStyle, (warned ++ silent).Perm (styles.filter (·.isUnusual)) ∧
    notices.filterMap Notice.told? = warned.map PlacedStyle.told ∧
      ∀ s ∈ silent, (s.location = .response ∧ s.style = .query) ∧ ¬explicit
  only : explicit → ∀ n ∈ notices, n.told?.isSome = true

section Told

variable {explicit : Prop} {styles more : List PlacedStyle} {notices others : List Notice}

/-- Notices that say nothing of styles tell of no style. -/
theorem Told.nothing (hnone : ∀ n ∈ notices, n.told? = none) (hexplicit : explicit → notices = []) :
    Told explicit [] notices := by
  refine ⟨⟨[], [], .refl _, List.filterMap_eq_nil_iff.2 hnone, List.forall_mem_nil _⟩,
    fun h n hn => ?_⟩
  rw [hexplicit h] at hn
  cases hn

/-- What is told of two parts is told of both together. -/
theorem Told.append (h : Told explicit styles notices) (h' : Told explicit more others) :
    Told explicit (styles ++ more) (notices ++ others) := by
  obtain ⟨warned, silent, hperm, hwarned, hsilent⟩ := h.all
  obtain ⟨warned', silent', hperm', hwarned', hsilent'⟩ := h'.all
  refine ⟨⟨warned ++ warned', silent ++ silent', ?_, ?_,
    List.forall_mem_append.2 ⟨hsilent, hsilent'⟩⟩, ?_⟩
  · rw [List.filter_append]
    refine .trans ?_ (hperm.append hperm')
    rw [List.append_assoc, List.append_assoc]
    refine .append_left _ ?_
    rw [← List.append_assoc, ← List.append_assoc]
    exact List.perm_append_comm.append_right _
  · rw [List.filterMap_append, List.map_append, hwarned, hwarned']
  · exact fun hexplicit => List.forall_mem_append.2 ⟨h.only hexplicit, h'.only hexplicit⟩

/-- In which order the styles are counted is of no matter. -/
theorem Told.perm (h : Told explicit styles notices) (hperm : styles.Perm more) :
    Told explicit more notices := by
  obtain ⟨warned, silent, htold, hrest⟩ := h.all
  exact ⟨⟨warned, silent, htold.trans (hperm.filter _), hrest⟩, h.only⟩

end Told

/-- If all styles are stated, the notices tell of those that are not customary, and there are none
exactly if all are. -/
theorem Told.of_stated (h : Told True styles notices) :
    (notices.filterMap Notice.told?).Perm ((styles.filter (·.isUnusual)).map PlacedStyle.told) ∧
      (notices = [] ↔ styles.filter (·.isUnusual) = []) := by
  obtain ⟨warned, silent, hperm, hwarned, hsilent⟩ := h.all
  obtain rfl : silent = [] := List.eq_nil_iff_forall_not_mem.2 fun s hs => (hsilent s hs).2 trivial
  rw [List.append_nil] at hperm
  refine ⟨by rw [hwarned]; exact hperm.map _, ?_, fun hnil => ?_⟩
  · rintro rfl
    rw [List.map_eq_nil_iff.1 hwarned.symm] at hperm
    exact hperm.nil_eq.symm
  · rw [hnil] at hperm
    rw [hperm.eq_nil, List.map_nil, List.filterMap_eq_nil_iff] at hwarned
    refine List.eq_nil_iff_forall_not_mem.2 fun n hn => ?_
    have hsome := h.only trivial n hn
    rw [hwarned n hn] at hsome
    cases hsome

/-- The notices of a reader tell of the styles of what it gives, but for the styles `before`. -/
def Tells {α : Type} (explicit : Prop) (before : List PlacedStyle) (x : Reading α)
    (styles : α → List PlacedStyle) : Prop :=
  ∀ s a t, Gives x s a t →
    ∃ w after, t = s ++ w ∧ Told explicit after w ∧ (before ++ after).Perm (styles a)

section Tells

variable {α β : Type} {explicit : Prop} {before : List PlacedStyle} {x : Reading α}
    {f : α → List PlacedStyle}
  {g : β → List PlacedStyle}

theorem Tells.pure {a : α} (h : before.Perm (f a)) : Tells explicit before (Pure.pure a) f := by
  intro s b t hgives
  obtain ⟨rfl, rfl⟩ := gives_pure.1 hgives
  have hnothing : Told explicit [] [] := .nothing (List.forall_mem_nil _) fun _ => rfl
  exact ⟨[], [], (List.append_nil s).symm, hnothing, by rwa [List.append_nil]⟩

/-- A reading that fails has nothing to tell. -/
theorem Tells.throw (error : DocumentError) :
    Tells explicit before (MonadExcept.throw error : Reading α) f :=
  fun _ _ _ h => absurd h gives_throw

/-- Two readings tell what each of them tells. -/
theorem Tells.bind {y : α → Reading β} (hx : Tells explicit [] x f)
    (hy : ∀ a, Yields x a → Tells explicit (before ++ f a) (y a) g) :
    Tells explicit before (x >>= y) g := by
  intro s b t hgives
  obtain ⟨a, u, hxa, hyb⟩ := gives_bind.1 hgives
  obtain ⟨w, after, rfl, htold, hperm⟩ := hx s a u hxa
  obtain ⟨w', after', rfl, htold', hperm'⟩ := hy a hxa.yields _ b t hyb
  refine ⟨w ++ w', after ++ after', List.append_assoc s w w', htold.append htold', .trans ?_ hperm'⟩
  rw [← List.append_assoc]
  exact ((List.Perm.append_left before hperm).append_right after')

/-- A step that gives no styles. -/
theorem Tells.skip {y : α → Reading β} (hx : Tells explicit [] x fun _ => [])
    (hy : ∀ a, Yields x a → Tells explicit before (y a) g) : Tells explicit before (x >>= y) g :=
  hx.bind fun a ha => by
    rw [List.append_nil]
    exact hy a ha

theorem Tells.map {y : α → β} (hx : Tells explicit before x fun a => g (y a)) :
    Tells explicit before (y <$> x) g := by
  intro s b t hgives
  obtain ⟨a, hxa, rfl⟩ := gives_map.1 hgives
  exact hx s a t hxa

/-- Reading a list tells of the styles of all that is read. -/
theorem Tells.mapM {y : α → Reading β} : ∀ {xs : List α}, (∀ a ∈ xs, Tells explicit [] (y a) g) →
    Tells explicit [] (xs.mapM y) fun bs => bs.flatMap g
  | [], _ => by
    rw [List.mapM_nil]
    exact .pure (.refl _)
  | a :: xs, h => by
    obtain ⟨ha, hxs⟩ := List.forall_mem_cons.1 h
    rw [List.mapM_cons]
    exact ha.bind fun _ _ => (Tells.mapM hxs).bind fun _ _ => .pure (.refl _)

/-- A loop over steps that give no styles. -/
theorem Tells.mapM_skip {y : α → Reading β} {xs : List α}
    (h : ∀ a ∈ xs, Tells explicit [] (y a) fun _ => []) :
    Tells explicit [] (xs.mapM y) fun _ => [] := by
  intro s bs t hgives
  obtain ⟨w, after, hw, htold, hperm⟩ := Tells.mapM h s bs t hgives
  exact ⟨w, after, hw, htold, hperm.trans (.of_eq (List.flatMap_eq_nil_iff.2 fun _ _ => rfl))⟩

/-- Adding parts one by one tells of the styles that each step adds. -/
theorem Tells.foldlM {y : β → α → Reading β} :
    ∀ {xs : List α} {b : β}, (∀ b, ∀ a ∈ xs, Tells explicit (g b) (y b a) g) →
      Tells explicit (g b) (xs.foldlM y b) g
  | [], b, _ => by
    rw [List.foldlM_nil]
    exact .pure (.refl _)
  | a :: xs, b, h => by
    rw [List.foldlM_cons]
    intro s c t hgives
    obtain ⟨b', u, hfirst, hrest⟩ := gives_bind.1 hgives
    obtain ⟨w, after, rfl, htold, hperm⟩ := h b a List.mem_cons_self s b' u hfirst
    have ih := Tells.foldlM (b := b') fun b a ha => h b a (List.mem_cons_of_mem _ ha)
    obtain ⟨w', after', rfl, htold', hperm'⟩ := ih _ c t hrest
    refine ⟨w ++ w', after ++ after', List.append_assoc s w w',
      htold.append htold', .trans ?_ hperm'⟩
    rw [← List.append_assoc]
    exact hperm.append_right after'

end Tells

/-! ## Readers -/

section Readers

variable {explicit : Prop} {pos : Position} {e : Element} {k : ElementKind}
  {found : List (ElementKind × Element)}

/-- If the styles are `explicit`, so are all items. -/
def ItemsExplicit (explicit : Prop) (found : List (ElementKind × Element)) : Prop :=
  explicit → ∀ p ∈ found, Explicit p.1 p.2

theorem ItemsExplicit.ofKind (h : ItemsExplicit explicit found) {l : ElementKind} :
    ∀ e ∈ ofKind l found, explicit → Explicit l e :=
  fun e he hexplicit => h hexplicit (l, e) (mem_ofKind.1 he)

/-- The items of an explicit element are explicit. -/
theorem itemsExplicit_items (he : explicit → Explicit k e)
    (h : Yields (items pos k e.content) found) : ItemsExplicit explicit found := by
  intro hexplicit
  rw [← filterMap_of_items h]
  exact (he hexplicit).inside

/-- The items of an element tell of no styles, and if all of it is explicit, there are no
notices. -/
theorem tells_items_content : ∀ {content : List Xml.Node},
    (explicit → ∀ child : Element, child.node ∈ content → (itemOf? child.node).isSome = true) →
      Tells explicit [] (items pos k content) fun _ => []
  | [], _ => .pure (.refl _)
  | .element tag inside :: rest, h => by
    have hrest : explicit → ∀ child : Element,
        child.node ∈ rest → (itemOf? child.node).isSome = true :=
      fun hexplicit child hchild => h hexplicit child (List.mem_cons_of_mem _ hchild)
    have ih := tells_items_content hrest
    -- a notice of an element that is left out, which is not explicit
    have hskip : ∀ n : Notice, n.told? = none → itemOf? (.element tag inside) = none →
        Tells explicit [] (notice n >>= fun _ => items pos k rest) fun _ => [] := by
      intro n hn hitem
      refine Tells.skip (fun s u t hgives => ?_) fun _ _ => ih
      obtain rfl := gives_modify.1 hgives
      refine ⟨[n], [], rfl, .nothing (List.forall_mem_singleton.2 hn) fun hexplicit => ?_, .refl _⟩
      have hsome := h hexplicit ⟨tag, inside⟩ List.mem_cons_self
      rw [Element.node, hitem] at hsome
      cases hsome
    have hitem : ∀ kind, Tells explicit []
        (do return (kind, Element.mk tag inside) :: (← items pos k rest)) fun _ => [] :=
      fun _ => ih.skip fun _ _ => .pure (.refl _)
    simp only [items]
    split
    · exact hitem _
    · rename_i hdoc
      split
      · rename_i hforeign
        exact hskip _ rfl (by rw [itemOf?, if_neg hdoc, if_pos hforeign])
      · rename_i hwadl
        split
        · split
          · exact hitem _
          · exact .throw _
        · rename_i hnone
          split
          · exact .throw _
          · exact hskip _ rfl (by rw [itemOf?, if_neg hdoc, if_neg hwadl, hnone]; rfl)
  | .text _ :: rest, h | .comment _ :: rest, h | .instruction _ :: rest, h => by
    have hrest : explicit → ∀ child : Element,
        child.node ∈ rest → (itemOf? child.node).isSome = true :=
      fun hexplicit child hchild => h hexplicit child (List.mem_cons_of_mem _ hchild)
    have ih := tells_items_content hrest
    exact ih

/-- Collecting the items of an element says nothing of styles. -/
theorem tells_items (he : explicit → Explicit k e) :
    Tells explicit [] (items pos k e.content) fun _ => [] :=
  tells_items_content fun hexplicit => (he hexplicit).known

theorem tells_required {attr : String} : Tells explicit [] (required pos e k attr) fun _ => [] := by
  unfold required
  split
  · exact .pure (.refl _)
  · exact .throw _

theorem tells_flag {attr : String} : Tells explicit [] (flag pos e attr) fun _ => [] := by
  unfold flag
  split
  · exact .pure (.refl _)
  · split
    · exact .pure (.refl _)
    · split
      · exact .pure (.refl _)
      · exact .throw _

theorem tells_reference {kind : DefinitionKind} {href : String} :
    Tells explicit [] (reference pos kind href) fun _ => [] := by
  unfold reference
  split
  · exact .pure (.refl _)
  · exact .throw _

theorem tells_refuse {α : Type} {found : Option α} {error : α → DocumentError} :
    Tells explicit [] (refuse found error) fun _ => [] := by
  unfold refuse
  split
  · exact .throw _
  · exact .pure (.refl _)

theorem tells_requireId {location : ElementKind} :
    Tells explicit [] (requireId pos location e k) fun _ => [] := by
  unfold requireId
  split
  · exact tells_required.map
  · exact .pure (.refl _)

/-! ## Params -/

/-- A style that is customary where it stands needs no notice. -/
theorem Told.customary {s : PlacedStyle} (h : s.isUnusual = false) : Told explicit [s] [] := by
  refine ⟨⟨[], [], ?_, rfl, List.forall_mem_nil _⟩, fun _ => List.forall_mem_nil _⟩
  rw [List.filter_cons_of_neg (by simp [h])]
  exact .refl _

/-- Reading passes over the style that a param of a response has by default. -/
theorem Told.default {s : PlacedStyle} (h : s.location = .response ∧ s.style = .query)
    (hnot : ¬explicit) : Told explicit [s] [] := by
  have hunusual : s.isUnusual = true := by
    rw [PlacedStyle.isUnusual, h.1, h.2]
    rfl
  refine ⟨⟨[], [s], ?_, rfl, List.forall_mem_singleton.2 ⟨h, hnot⟩⟩, fun _ => List.forall_mem_nil _⟩
  rw [List.filter_cons_of_pos hunusual]
  exact .refl _

/-- A notice tells of a style. -/
theorem Told.warned {s : PlacedStyle} {n : Notice} (h : s.isUnusual = true)
    (hn : n.told? = some s.told) : Told explicit [s] [n] := by
  refine ⟨⟨[s], [], ?_, List.filterMap_cons_some hn, List.forall_mem_nil _⟩,
    fun _ => List.forall_mem_singleton.2 (by rw [hn]; rfl)⟩
  rw [List.filter_cons_of_pos h]
  exact .refl _

/-- A style that is stated is told of if it is not customary, and only in responses a default style
is not. -/
theorem tells_readStyle (hk : ElementKind.param ∈ k.children)
    (hstates : explicit → (e.get? "style").isSome = true) :
    Tells explicit [] (readStyle pos e k) fun style => [⟨k, style, pos.path.getLastD ""⟩] := by
  intro s style t hgives
  have hnothing : ∀ {u : List Notice}, s = u → Told explicit [⟨k, style, pos.path.getLastD ""⟩] [] →
      ∃ w after, u = s ++ w ∧ Told explicit after w ∧
        ([] ++ after).Perm [(⟨k, style, pos.path.getLastD ""⟩ : PlacedStyle)] := by
    rintro u rfl htold
    exact ⟨[], _, (List.append_nil s).symm, htold, .refl _⟩
  unfold readStyle at hgives
  split at hgives
  · rename_i hnone
    obtain ⟨rfl, hs⟩ := gives_pure.1 hgives
    refine hnothing hs ?_
    by_cases hresponse : k = .response
    · refine .default ⟨hresponse, if_neg (by simp [hresponse])⟩ fun hexplicit => ?_
      have hsome := hstates hexplicit
      rw [hnone] at hsome
      cases hsome
    · refine .customary ?_
      cases k <;> simp_all [ElementKind.children, PlacedStyle.isUnusual,
        ElementKind.styles, ParamStyle.all]
  · rename_i word hword
    split at hgives
    · exact absurd hgives gives_throw
    · rename_i style' hstyle
      split at hgives
      · rename_i hnot
        split at hgives
        · obtain ⟨_, _, hfail, -⟩ := gives_bind.1 hgives
          exact absurd hfail gives_throw
        · obtain ⟨_, u, hnotice, hpure⟩ := gives_bind.1 hgives
          obtain rfl := gives_modify.1 hnotice
          obtain ⟨rfl, rfl⟩ := gives_pure.1 hpure
          refine ⟨[.unusualStyle word k.word pos.path], _, rfl,
            .warned (by simpa [PlacedStyle.isUnusual] using hnot) ?_, .refl _⟩
          rw [Notice.told?, PlacedStyle.told, ParamStyle.word_of_ofWord? hstyle]
      · rename_i hcustomary
        obtain ⟨rfl, hs⟩ := gives_pure.1 hgives
        exact hnothing hs (.customary (by simpa [PlacedStyle.isUnusual] using hcustomary))

theorem tells_readOption (he : explicit → Explicit .option e) :
    Tells explicit [] (readOption pos e) fun _ => [] :=
  tells_required.skip fun _ _ => (tells_items he).skip fun _ _ => .pure (.refl _)

theorem tells_readTarget (href : Option String) :
    Tells explicit [] (readTarget pos href) fun _ => [] := by
  unfold readTarget
  split
  · split
    · exact .pure (.refl _)
    · exact tells_reference.map
  · exact .pure (.refl _)

theorem tells_readLink (he : explicit → Explicit .link e) :
    Tells explicit [] (readLink pos e) fun _ => [] :=
  (tells_readTarget _).skip fun _ _ => (tells_items he).skip fun _ _ => .pure (.refl _)

/-- Reading a param tells of its style: there is a notice just if it is unusual at this place. -/
theorem tells_readParamBody (hk : ElementKind.param ∈ k.children)
    (he : explicit → Explicit .param e) (hhref : e.get? "href" = none)
    (hlabel : pos.path.getLastD "" =
      labelled "param" (firstNonEmpty [e.get? "name", e.get? "id"])) :
    Tells explicit [] (readParamBody pos k e) fun p => [p.placedStyle k] := by
  unfold readParamBody
  refine tells_required.skip fun name hname => ?_
  refine (tells_readStyle hk fun hexplicit => (he hexplicit).states rfl hhref).bind
    fun style _ => ?_
  refine (tells_items he).skip fun found hfound => ?_
  have hitems := itemsExplicit_items he hfound
  refine (Tells.mapM_skip fun o ho => tells_readOption (hitems.ofKind o ho)).skip
    fun options _ => ?_
  refine tells_refuse.skip fun _ _ => tells_flag.skip fun _ _ => tells_flag.skip fun _ _ => ?_
  refine (Tells.mapM_skip fun l hl => tells_readLink (hitems.ofKind l hl)).skip fun links _ =>
    .pure (.of_eq ?_)
  rw [hlabel, yields_required hname]
  rfl

theorem tells_readParam (hk : ElementKind.param ∈ k.children) (he : explicit → Explicit .param e) :
    Tells explicit [] (readParam pos k e) fun item => item.placedStyles k := by
  unfold readParam
  refine tells_requireId.skip fun _ _ => ?_
  split
  · exact tells_reference.skip fun _ _ => .pure (.refl _)
  · rename_i hhref
    refine (tells_readParamBody hk he hhref ?_).bind fun _ _ => .pure (.refl _)
    rw [hhref]
    simp only [Position.enter, List.getLastD_concat]
    cases e.get? "name" <;> cases e.get? "id" <;> simp [firstNonEmpty]

/-- Reading params tells of the styles of all of them. -/
theorem tells_readParams (hk : ElementKind.param ∈ k.children)
    (hfound : ItemsExplicit explicit found) :
    Tells explicit [] (readParams pos k found) fun items => items.flatMap (·.placedStyles k) :=
  (Tells.mapM fun e he => tells_readParam hk (hfound.ofKind e he)).bind fun _ _ =>
    tells_refuse.skip fun _ _ => .pure (.refl _)

/-! ## Representations and methods -/

theorem tells_readRepresentation (he : explicit → Explicit .representation e) :
    Tells explicit [] (readRepresentation pos k e) fun item => item.placedStyles := by
  unfold readRepresentation
  refine tells_requireId.skip fun _ _ => ?_
  split
  · exact tells_reference.skip fun _ _ => .pure (.refl _)
  · refine Tells.bind (f := fun r => r.params.flatMap (·.placedStyles .representation)) ?_
      fun _ _ => .pure (.refl _)
    exact (tells_items he).skip fun found hfound =>
      (tells_readParams (by decide) (itemsExplicit_items he hfound)).bind fun _ _ => .pure (.refl _)

/-- Reading representations tells of the styles of their params. -/
theorem tells_readRepresentations (hfound : ItemsExplicit explicit found) :
    Tells explicit [] (readRepresentations pos k found) fun items =>
      items.flatMap (·.placedStyles) :=
  Tells.mapM fun e he => tells_readRepresentation (hfound.ofKind e he)

theorem tells_readRequest (he : explicit → Explicit .request e) :
    Tells explicit [] (readRequest pos e) fun r => r.placedStyles :=
  (tells_items he).skip fun _ hfound =>
    (tells_readParams (by decide) (itemsExplicit_items he hfound)).bind fun _ _ =>
      (tells_readRepresentations (itemsExplicit_items he hfound)).bind fun _ _ => .pure (.refl _)

theorem tells_readStatus {status : String} :
    Tells explicit [] (readStatus pos status) fun _ => [] := by
  unfold readStatus
  split
  · exact .pure (.refl _)
  · exact .throw _

theorem tells_readResponse (he : explicit → Explicit .response e) :
    Tells explicit [] (readResponse pos e) fun r => r.placedStyles :=
  tells_readStatus.skip fun _ _ => (tells_items he).skip fun _ hfound =>
    (tells_readParams (by decide) (itemsExplicit_items he hfound)).bind fun _ _ =>
      (tells_readRepresentations (itemsExplicit_items he hfound)).bind fun _ _ => .pure (.refl _)

/-- The only request of a method tells of its styles; a second one is refused. -/
theorem tells_readOnlyRequest (es : List Element) (he : ∀ e ∈ es, explicit → Explicit .request e) :
    Tells explicit [] (readOnlyRequest pos es) fun r => r.toList.flatMap (·.placedStyles) := by
  unfold readOnlyRequest
  split
  · exact .pure (.refl _)
  · refine Tells.map ?_
    simp only [Option.toList_some, List.flatMap_singleton]
    exact tells_readRequest (he _ List.mem_cons_self)
  · exact .throw _

/-- Reading a method tells of the styles in its request and in its responses. -/
theorem tells_readMethodBody (he : explicit → Explicit .method e) :
    Tells explicit [] (readMethodBody pos e) fun m => m.placedStyles := by
  refine tells_required.skip fun _ _ => (tells_items he).skip fun found hfound => ?_
  have hitems := itemsExplicit_items he hfound
  exact (tells_readOnlyRequest _ hitems.ofKind).bind fun _ _ =>
    (Tells.mapM fun e he => tells_readResponse (hitems.ofKind e he)).bind fun _ _ => .pure (.refl _)

theorem tells_readMethod (he : explicit → Explicit .method e) :
    Tells explicit [] (readMethod pos e) fun m => m.placedStyles := by
  unfold readMethod
  simp only
  split
  · exact tells_reference.skip fun _ _ => .pure (.refl _)
  · exact (tells_readMethodBody he).bind fun _ _ => .pure (.refl _)

theorem tells_readTopMethod (he : explicit → Explicit .method e) :
    Tells explicit [] (readTopMethod pos e) fun m => m.placedStyles := by
  unfold readTopMethod
  exact tells_requireId.skip fun _ _ => tells_readMethodBody he

theorem tells_readMethods (hfound : ItemsExplicit explicit found) :
    Tells explicit [] (readMethods pos found) fun ms => ms.flatMap (·.placedStyles) :=
  (Tells.mapM fun e he => tells_readMethod (hfound.ofKind e he)).bind fun _ _ =>
    tells_refuse.skip fun _ _ => .pure (.refl _)

/-! ## Resources -/

/-- The reader of a resource, with any way to read those below it. -/
theorem tells_readResource {inherited : List String}
    {below : Position → List String → Reading (List Resource)}
    (he : explicit → Explicit .resource e)
    (hbelow : ∀ inside declared, Tells explicit [] (below inside declared) placedStylesList) :
    Tells explicit [] (readResource pos inherited e below) (·.placedStyles) := by
  refine (tells_items he).skip fun found hfound => ?_
  have hitems := itemsExplicit_items he hfound
  refine (tells_readParams (by decide) hitems).bind fun _ _ =>
    (tells_readMethods hitems).bind fun _ _ => ?_
  refine (Tells.mapM_skip fun _ _ => tells_reference).skip fun _ _ =>
    (hbelow _ _).bind fun _ _ => ?_
  exact tells_refuse.skip fun _ _ => .pure (.refl _)

mutual

theorem tells_readIfResource (pos : Position) (inherited : List String) : ∀ n : Xml.Node,
    (∀ e, itemOf? n = some (.resource, e) → explicit → Explicit .resource e) →
      Tells explicit [] (readIfResource pos inherited n) fun r => r.toList.flatMap (·.placedStyles)
  | .element tag content, h => by
    rw [readIfResource]
    split
    · rename_i htag
      have hitem : itemOf? (.element tag content) = some (.resource, ⟨tag, content⟩) :=
        (itemOf?_eq_some (by decide)).2 ⟨rfl, isResourceTag_iff_isTag.1 htag⟩
      have he := h _ hitem
      refine Tells.map ?_
      simp only [Option.toList_some, List.flatMap_singleton]
      refine tells_readResource he fun inside declared =>
        tells_readResources inside declared content ?_
      exact fun hexplicit => (he hexplicit).inside
    · exact .pure (.refl _)
  | .text _, _ | .comment _, _ | .instruction _, _ => .pure (.refl _)

/-- Reading resources tells of all styles below them, by induction on the tree. -/
theorem tells_readResources (pos : Position) (inherited : List String) : ∀ content : List Xml.Node,
    ItemsExplicit explicit (content.filterMap itemOf?) →
      Tells explicit [] (readResources pos inherited content) placedStylesList
  | [], _ => .pure (.refl _)
  | n :: rest, h => by
    rw [readResources]
    have hn : ∀ e, itemOf? n = some (.resource, e) → explicit → Explicit .resource e :=
      fun e hitem hexplicit =>
      h hexplicit (.resource, e) (List.mem_filterMap.2 ⟨n, List.mem_cons_self, hitem⟩)
    have hrest : ItemsExplicit explicit (rest.filterMap itemOf?) := fun hexplicit p hp => by
      obtain ⟨m, hm, hitem⟩ := List.mem_filterMap.1 hp
      exact h hexplicit p (List.mem_filterMap.2 ⟨m, List.mem_cons_of_mem n hm, hitem⟩)
    refine (tells_readIfResource pos inherited n hn).bind fun first _ => ?_
    refine (tells_readResources pos inherited rest hrest).bind fun more _ => .pure (.of_eq ?_)
    rw [placedStylesList_eq, placedStylesList_eq, List.flatMap_append]
    rfl

end

theorem tells_readResourceType (he : explicit → Explicit .resourceType e) :
    Tells explicit [] (readResourceType pos e) fun t => t.placedStyles := by
  refine tells_required.skip fun _ _ => (tells_items he).skip fun found hfound => ?_
  have hitems := itemsExplicit_items he hfound
  refine (tells_readParams (by decide) hitems).bind fun _ _ =>
    (tells_readMethods hitems).bind fun _ _ => ?_
  exact (tells_readResources _ _ _ fun hexplicit => (he hexplicit).inside).bind fun _ _ =>
    .pure (.refl _)

theorem tells_readGroup (he : explicit → Explicit .resources e) :
    Tells explicit [] (readGroup pos e) fun g => g.placedStyles :=
  (tells_items he).skip fun _ _ =>
    (tells_readResources _ _ _ fun hexplicit => (he hexplicit).inside).bind fun _ _ =>
      .pure (.refl _)

theorem tells_readGrammars (he : explicit → Explicit .grammars e) :
    Tells explicit [] (readGrammars pos e) fun _ => [] :=
  (tells_items he).skip fun _ _ => Tells.mapM_skip fun _ _ => tells_required

/-! ## Descriptions -/

/-- The item that is added brings its styles, wherever they come among those of the description. -/
theorem tells_addItem (app : Application) (item : ElementKind × Element)
    (he : explicit → Explicit item.1 item.2) :
    Tells explicit app.placedStyles (addItem pos app item) (·.placedStyles) := by
  obtain ⟨kind, e⟩ := item
  -- the styles are counted, since those of the item come in the midst of the others
  have hadd : ∀ {before after : Application} {more : List PlacedStyle},
      (∀ s, before.placedStyles.count s + more.count s = after.placedStyles.count s) →
        Tells explicit (before.placedStyles ++ more) (Pure.pure after) (·.placedStyles) := by
    intro before after more hcount
    refine .pure (List.perm_iff_count.2 fun s => ?_)
    rw [List.count_append, hcount]
  cases kind
  case resourceType =>
    refine (tells_readResourceType he).bind fun t _ => tells_refuse.skip fun _ _ => hadd fun s => ?_
    simp only [Application.placedStyles, List.flatMap_append,
      List.flatMap_singleton, List.count_append]
    omega
  case representation =>
    refine (tells_readRepresentation he).bind fun r _ =>
      tells_refuse.skip fun _ _ => hadd fun s => ?_
    simp only [Application.placedStyles, List.flatMap_append,
      List.flatMap_singleton, List.count_append]
    omega
  case param =>
    refine (tells_readParam (by decide) he).bind fun p _ =>
      tells_refuse.skip fun _ _ => hadd fun s => ?_
    simp only [Application.placedStyles, List.flatMap_append,
      List.flatMap_singleton, List.count_append]
    omega
  case method =>
    refine (tells_readTopMethod he).bind fun m _ => tells_refuse.skip fun _ _ => hadd fun s => ?_
    simp only [Application.placedStyles, List.flatMap_append,
      List.flatMap_singleton, List.count_append]
    omega
  case grammars => exact (tells_readGrammars he).skip fun _ _ => .pure (.refl _)
  case resources =>
    refine (tells_readGroup he).bind fun g _ => hadd fun s => ?_
    simp only [Application.placedStyles, List.flatMap_append,
      List.flatMap_singleton, List.count_append]
    omega
  all_goals exact .pure (.refl _)

end Readers

end Reader

open Reader

/-- The notices of reading a description tell of the styles of its params that are not customary,
but for some that params of responses have by default; and if all styles are stated, of all of them
and of nothing else. -/
theorem told_readDescription {explicit : Prop} {base : String} {strict : Bool} {root : Xml.Node}
    {app : Application} {notices : List Notice}
    (h : Gives (readDescription base strict root) [] app notices)
    (hroot : explicit → ∀ e : Element, e.node = root → Explicit .application e) :
    Told explicit app.placedStyles notices := by
  have hread : Tells explicit [] (readApplication base strict root) (·.placedStyles) := by
    cases root with
    | text _ | comment _ | instruction _ => exact .throw _
    | element tag content =>
      have he : explicit → Explicit .application ⟨tag, content⟩ :=
        fun hexplicit => hroot hexplicit _ rfl
      have hitems : Tells explicit []
          (do
            let found ← items ⟨base, strict, ["application"]⟩ .application content
            found.foldlM (addItem ⟨base, strict, ["application"]⟩)
              ⟨base, readDocs found, [], [], [], [], [], []⟩)
          (·.placedStyles) := by
        refine (tells_items he).skip fun found hfound => ?_
        exact Tells.foldlM (g := Application.placedStyles)
          (b := ⟨base, readDocs found, [], [], [], [], [], []⟩)
          fun app p hp => tells_addItem app p fun hexplicit =>
            itemsExplicit_items he hfound hexplicit p hp
      unfold readApplication
      simp only
      split
      · exact (Tells.throw (f := fun _ => []) _).skip fun _ _ => hitems
      · exact hitems
  have hall : Tells explicit [] (readDescription base strict root) (·.placedStyles) := by
    refine hread.bind fun app _ => ?_
    cases Index.ofApplication app with
    | ok index => exact (Tells.pure (f := fun _ => []) (.refl _)).skip fun _ _ => .pure (.refl _)
    | error error => exact (Tells.throw (f := fun _ => []) error).skip fun _ _ => .pure (.refl _)
  obtain ⟨w, after, rfl, htold, hperm⟩ := hall [] app notices h
  exact htold.perm hperm

end Wadl
