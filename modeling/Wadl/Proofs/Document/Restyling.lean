import Wadl.Proofs.Document.RoundTrip
import Wadl.Proofs.Document.Strictness
import Wadl.Proofs.Document.Styles

/-!
# Styles that are written

Where a description is written, every param states its style (`Outline.StatesStyles`), also the one
it had by default. Lenient reading of what is written warns of all styles that are not customary
where they stand, and strict reading takes what is written exactly if there are none
(`rendered_styles`). For a description that was read strictly these can only be default styles of
params of responses.
-/

namespace Wadl

open Reader Outline

/-! ## Outlines that state every style -/

namespace Outline

/-- An outline in which every param states its style. -/
inductive StatesStyles : Outline → Prop where
  | element {tag : String} {attributes : List (String × String)} {children : List Outline}
      (states : tag = ElementKind.param.word → attributes.lookup "href" = none →
        (attributes.lookup "style").isSome = true)
      (inside : ∀ o ∈ children, StatesStyles o) : StatesStyles (.element tag attributes children)
  | doc {tag : String} {attributes : List (String × String)} {content : String} :
      StatesStyles (.verbatim tag attributes content)

theorem get?_tag (o : Outline) {name : String} (h : name ≠ "xml:lang") :
    o.tag.get? name = o.attributes.lookup name := by
  rw [← lookup_named, attributeName, if_neg h]
  rfl

/-- The element of an outline is an item of its kind. -/
theorem Sound.itemOf? {o : Outline} (h : o.Sound) (depth : Nat) :
    itemOf? (o.asElement depth).node = some (o.kind, o.asElement depth) := by
  have hwadl : o.tag.name.isWadl = true := by simp [tag, Xml.Name.isWadl]
  by_cases hdoc : o.kind = .doc
  · have hlabel : (o.asElement depth).tag.name.label = ElementKind.doc.word := hdoc ▸ h.label
    rw [Element.node, Reader.itemOf?, if_pos hlabel, hdoc]
  · exact (itemOf?_eq_some hdoc).2 ⟨rfl, h.label, hwadl⟩

/-- The pieces of what is written in an element are texts and the elements of the outlines in it. -/
theorem mem_content {tag : String} {attributes : List (String × String)}
    {children : List Outline} {depth : Nat} {n : Xml.Node}
    (h : n ∈ (Outline.element tag attributes children).content depth) :
    (∃ s, n = .text s) ∨ ∃ o ∈ children, n = (o.asElement (depth + 1)).node := by
  have hbetween : ∀ {os : List Outline}, n ∈ between (depth + 1) os →
      (∃ s, n = .text s) ∨ ∃ o ∈ os, n = (o.asElement (depth + 1)).node := by
    intro os hn
    induction os with
    | nil => cases hn
    | cons o os ih =>
      rw [between] at hn
      rcases List.mem_cons.1 hn with rfl | hn
      · exact .inl ⟨_, rfl⟩
      · rcases List.mem_cons.1 hn with rfl | hn
        · exact .inr ⟨o, List.mem_cons_self, rfl⟩
        · rcases ih hn with htext | ⟨o', ho', rfl⟩
          · exact .inl htext
          · exact .inr ⟨o', List.mem_cons_of_mem o ho', rfl⟩
  rw [content] at h
  split at h
  · cases h
  · rcases List.mem_append.1 h with h | h
    · exact hbetween h
    · exact .inl ⟨_, List.mem_singleton.1 h⟩

/-- What is written in an element is explicit if the outlines in it are. -/
theorem explicit_content {k : ElementKind} {tag : Xml.Tag} {label : String}
    {attributes : List (String × String)} {children : List Outline} {depth : Nat}
    (states : k = .param → tag.get? "href" = none → (tag.get? "style").isSome = true)
    (hsound : ∀ o ∈ children, o.Sound)
    (hchildren : ∀ o ∈ children, Explicit o.kind (o.asElement (depth + 1))) :
    Explicit k ⟨tag, (Outline.element label attributes children).content depth⟩ := by
  have hpieces : ∀ n ∈ (Outline.element label attributes children).content depth,
      (∃ s, n = .text s) ∨ ∃ o ∈ children, n = (o.asElement (depth + 1)).node :=
        fun n => mem_content
  refine .intro states (fun child hchild => ?_) fun p hp => ?_
  · rcases hpieces _ hchild with ⟨s, hs⟩ | ⟨o, ho, hnode⟩
    · cases hs
    · rw [hnode, (hsound o ho).itemOf?]
      rfl
  · obtain ⟨n, hn, hitem⟩ := List.mem_filterMap.1 hp
    rcases hpieces n hn with ⟨s, rfl⟩ | ⟨o, ho, rfl⟩
    · cases hitem
    · rw [(hsound o ho).itemOf?] at hitem
      obtain rfl := Option.some.inj hitem
      exact hchildren o ho

/-- An outline that states every style is written as an explicit element. -/
theorem Sound.explicit {o : Outline} (h : o.Sound) (hstates : o.StatesStyles) :
    ∀ depth, Explicit o.kind (o.asElement depth) := by
  induction h with
  | @element k attributes inside hattributes hallowed hsound ih =>
    intro depth
    cases hstates with
    | element states hinside =>
      refine explicit_content (fun hkind hhref => ?_) hsound fun o ho =>
        ih o ho (hinside o ho) (depth + 1)
      rw [get?_tag _ (by decide)] at hhref ⊢
      refine states ?_ hhref
      rw [← hkind, kind_of_label (k := k) rfl]
  | @doc attributes s hattributes htext hreturn =>
    intro depth
    have htexts : ∀ n ∈
        (asElement depth (.verbatim ElementKind.doc.word attributes (Xml.escapeText s))).content,
        ∃ t, n = .text t := by
      intro n hn
      rw [asElement, content, Xml.textNodes] at hn
      split at hn
      · cases hn
      · exact ⟨_, List.mem_singleton.1 hn⟩
    refine .intro (fun hkind => ?_) (fun child hchild => ?_) fun p hp => ?_
    · rw [kind_of_label (k := .doc) rfl] at hkind
      cases hkind
    · obtain ⟨t, ht⟩ := htexts _ hchild
      cases ht
    · obtain ⟨n, hn, hitem⟩ := List.mem_filterMap.1 hp
      obtain ⟨t, rfl⟩ := htexts n hn
      cases hitem

end Outline

/-! ## What is written states every style -/

namespace Render

/-- An element other than a param states its styles if its children do; the lemmas below go through
all that is written. -/
theorem states_element {k : ElementKind} {attributes : List (String × Option String)}
    {children : List Outline} (hk : k ≠ .param) (h : ∀ o ∈ children, o.StatesStyles) :
    (element k attributes children).StatesStyles := by
  refine .element (fun hword => absurd ?_ hk) h
  have hkind := ElementKind.ofWord?_word k
  rw [hword, ElementKind.ofWord?_word] at hkind
  exact (Option.some.inj hkind).symm

theorem states_mapM {α : Type} {f : α → Except UriError Outline} {xs : List α} {os : List Outline}
    (h : xs.mapM f = .ok os) (hf : ∀ x o, f x = .ok o → o.StatesStyles) :
    ∀ o ∈ os, o.StatesStyles := by
  intro o ho
  obtain ⟨x, -, hx⟩ := (Result.mem_mapM_ok h).1 ho
  exact hf x o hx

theorem states_docs (docs : List Doc) : ∀ o ∈ docs.map doc, o.StatesStyles := by
  intro o ho
  obtain ⟨d, -, rfl⟩ := List.mem_map.1 ho
  exact .doc

theorem states_option (x : ParamOption) : (option x).StatesStyles :=
  states_element (by decide) (states_docs x.docs)

section Parts

variable {base : String} {o : Outline}

theorem states_link {l : Link} (h : link base l = .ok o) : o.StatesStyles := by
  obtain ⟨_, -, h⟩ := Result.bind_ok.1 h
  obtain rfl := Result.pure_ok.1 h
  exact states_element (by decide) (states_docs l.docs)

/-- A param is written with its style, whether or not it stated it. -/
theorem states_param {item : ParamItem} (h : param base item = .ok o) : o.StatesStyles := by
  cases item with
  | ref r id =>
    obtain ⟨w, -, h⟩ := Result.bind_ok.1 h
    obtain rfl := Result.pure_ok.1 h
    have hnames : ([("id", id), ("href", some w)].map (·.1)).Nodup :=
      (by decide : ["id", "href"].Nodup)
    refine .element (fun _ hhref => ?_) (List.forall_mem_nil _)
    rw [lookup_present hnames] at hhref
    cases hhref
  | inline p =>
    obtain ⟨links, hlinks, h⟩ := Result.bind_ok.1 h
    obtain rfl := Result.pure_ok.1 h
    have hnames : ([("name", some p.name), ("style", some p.style.word), ("id", p.id),
        ("type", some p.type), ("default", p.default), ("fixed", p.fixed), ("path", p.path),
        ("required", flag p.required), ("repeating", flag p.repeating)].map (·.1)).Nodup :=
      (by decide : ["name", "style", "id", "type", "default", "fixed", "path", "required",
        "repeating"].Nodup)
    refine .element (fun _ _ => ?_)
      (List.forall_mem_append.2 ⟨List.forall_mem_append.2 ⟨states_docs _, ?_⟩, ?_⟩)
    · rw [lookup_present hnames]
      rfl
    · intro o ho
      obtain ⟨x, -, rfl⟩ := List.mem_map.1 ho
      exact states_option x
    · exact states_mapM hlinks fun _ _ => states_link

theorem states_representation {item : RepresentationItem} (h : representation base item = .ok o) :
    o.StatesStyles := by
  cases item with
  | ref r id =>
    obtain ⟨w, -, h⟩ := Result.bind_ok.1 h
    obtain rfl := Result.pure_ok.1 h
    exact states_element (by decide) (List.forall_mem_nil _)
  | inline r =>
    obtain ⟨params, hparams, h⟩ := Result.bind_ok.1 h
    obtain rfl := Result.pure_ok.1 h
    exact states_element (by decide)
      (List.forall_mem_append.2 ⟨states_docs _, states_mapM hparams fun _ _ => states_param⟩)

/-- What requests and responses hold. -/
theorem states_body {docs : List Doc} {params : List ParamItem} {items : List RepresentationItem}
    {ps rs : List Outline} (hps : params.mapM (param base) = .ok ps)
    (hrs : items.mapM (representation base) = .ok rs) :
    ∀ o ∈ docs.map doc ++ ps ++ rs, o.StatesStyles :=
  List.forall_mem_append.2
    ⟨List.forall_mem_append.2 ⟨states_docs _, states_mapM hps fun _ _ => states_param⟩,
    states_mapM hrs fun _ _ => states_representation⟩

theorem states_request {r : Request} (h : request base r = .ok o) : o.StatesStyles := by
  obtain ⟨ps, hps, h⟩ := Result.bind_ok.1 h
  obtain ⟨rs, hrs, h⟩ := Result.bind_ok.1 h
  obtain rfl := Result.pure_ok.1 h
  exact states_element (by decide) (states_body hps hrs)

theorem states_response {r : Response} (h : response base r = .ok o) : o.StatesStyles := by
  obtain ⟨ps, hps, h⟩ := Result.bind_ok.1 h
  obtain ⟨rs, hrs, h⟩ := Result.bind_ok.1 h
  obtain rfl := Result.pure_ok.1 h
  exact states_element (by decide) (states_body hps hrs)

theorem states_methodBody {m : Method} (h : methodBody base m = .ok o) : o.StatesStyles := by
  obtain ⟨requests, hrequests, h⟩ := Result.bind_ok.1 h
  obtain ⟨responses, hresponses, h⟩ := Result.bind_ok.1 h
  obtain rfl := Result.pure_ok.1 h
  exact states_element (by decide)
    (List.forall_mem_append.2 ⟨List.forall_mem_append.2 ⟨states_docs _,
    states_mapM hrequests fun _ _ => states_request⟩,
      states_mapM hresponses fun _ _ => states_response⟩)

theorem states_method {item : MethodItem} (h : method base item = .ok o) : o.StatesStyles := by
  cases item with
  | inline m => exact states_methodBody h
  | ref r =>
    obtain ⟨w, -, h⟩ := Result.bind_ok.1 h
    obtain rfl := Result.pure_ok.1 h
    exact states_element (by decide) (List.forall_mem_nil _)

/-- What resources and their types hold. -/
theorem states_holder {docs : List Doc} {params : List ParamItem} {methods : List MethodItem}
    {ps ms rs : List Outline} (hps : params.mapM (param base) = .ok ps)
    (hms : methods.mapM (method base) = .ok ms) (hrs : ∀ o ∈ rs, o.StatesStyles) :
    ∀ o ∈ docs.map doc ++ ps ++ ms ++ rs, o.StatesStyles :=
  List.forall_mem_append.2 ⟨List.forall_mem_append.2 ⟨List.forall_mem_append.2 ⟨states_docs _,
    states_mapM hps fun _ _ => states_param⟩, states_mapM hms fun _ _ => states_method⟩, hrs⟩

mutual

theorem states_resource : ∀ {r : Resource} {o : Outline}, resource base r = .ok o → o.StatesStyles
  | ⟨id, path, types, queryType, params, methods, resources, docs⟩, o, h => by
    rw [resource] at h
    obtain ⟨_, -, h⟩ := Result.bind_ok.1 h
    obtain ⟨ps, hps, h⟩ := Result.bind_ok.1 h
    obtain ⟨ms, hms, h⟩ := Result.bind_ok.1 h
    obtain ⟨rs, hrs, h⟩ := Result.bind_ok.1 h
    obtain rfl := Result.pure_ok.1 h
    exact states_element (by decide) (states_holder hps hms (states_resourceList hrs))

theorem states_resourceList :
    ∀ {rs : List Resource} {os : List Outline}, resourceList base rs = .ok os →
    ∀ o ∈ os, o.StatesStyles
  | [], os, h => by
    obtain rfl := Result.pure_ok.1 h
    exact List.forall_mem_nil _
  | r :: rs, os, h => by
    rw [resourceList] at h
    obtain ⟨o, ho, h⟩ := Result.bind_ok.1 h
    obtain ⟨more, hmore, h⟩ := Result.bind_ok.1 h
    obtain rfl := Result.pure_ok.1 h
    exact List.forall_mem_cons.2 ⟨states_resource ho, states_resourceList hmore⟩

end

theorem states_resourceType {t : ResourceType} (h : resourceType base t = .ok o) :
    o.StatesStyles := by
  obtain ⟨ps, hps, h⟩ := Result.bind_ok.1 h
  obtain ⟨ms, hms, h⟩ := Result.bind_ok.1 h
  obtain ⟨rs, hrs, h⟩ := Result.bind_ok.1 h
  obtain rfl := Result.pure_ok.1 h
  exact states_element (by decide) (states_holder hps hms (states_resourceList hrs))

theorem states_group {g : ResourceGroup} (h : group base g = .ok o) : o.StatesStyles := by
  obtain ⟨rs, hrs, h⟩ := Result.bind_ok.1 h
  obtain rfl := Result.pure_ok.1 h
  exact states_element (by decide) (states_resourceList hrs)

theorem states_grammars (hrefs : List String) : ∀ o ∈ grammars hrefs, o.StatesStyles := by
  unfold grammars
  split
  · exact List.forall_mem_nil _
  · refine List.forall_mem_singleton.2 (states_element (by decide) fun o ho => ?_)
    obtain ⟨href, -, rfl⟩ := List.mem_map.1 ho
    exact states_element (by decide) (List.forall_mem_nil _)

/-- In what is written for a description, every param states its style. -/
theorem states_application {app : Application} {children : List Outline}
    (h : application app = .ok (root children)) : ∀ o ∈ children, o.StatesStyles := by
  obtain ⟨ts, hts, h⟩ := Result.bind_ok.1 h
  obtain ⟨rs, hrs, h⟩ := Result.bind_ok.1 h
  obtain ⟨ps, hps, h⟩ := Result.bind_ok.1 h
  obtain ⟨ms, hms, h⟩ := Result.bind_ok.1 h
  obtain ⟨gs, hgs, h⟩ := Result.bind_ok.1 h
  have hroot : root _ = root children := Result.pure_ok.1 h
  obtain rfl := (Outline.element.inj hroot).2.2
  simp only [List.forall_mem_append]
  exact ⟨⟨⟨⟨⟨⟨states_docs _, states_grammars _⟩, states_mapM hts fun _ _ => states_resourceType⟩,
    states_mapM hrs fun _ _ => states_representation⟩, states_mapM hps fun _ _ => states_param⟩,
    states_mapM hms fun _ _ => states_methodBody⟩, states_mapM hgs fun _ _ => states_group⟩

end Parts

end Render

/-! ## Descriptions that are read again -/

/-- A sound description is written as a document in which every param states its style. -/
theorem render_explicit {app : Application} {written : String} (hbase : HttpBase app.baseUri)
    (h : app.Sound (plainCriteria app.baseUri)) (hrender : render app = .ok written) :
    ∃ root : Element, Explicit .application root ∧
      ∀ base strict,
        readDescriptionText base strict written = readDescription base strict root.node := by
  obtain ⟨children, hwrite, hsound, -⟩ := application_rereads hbase h.toPartsSound
  obtain rfl : (Outline.root children).document = written := by
    rw [render, hwrite] at hrender
    exact Result.pure_ok.1 hrender
  have hmarks : (Xml.Node.element rootTag ((Outline.root children).content 0)).withoutMarks =
      .element rootTag ((Outline.root children).content 0) := by
    rw [Xml.Node.withoutMarks, withoutMarks_content]
  refine ⟨⟨rootTag, (Outline.root children).content 0⟩, ?_, fun base strict => ?_⟩
  · refine explicit_content (fun hkind => absurd hkind (by decide)) hsound fun o ho => ?_
    exact (hsound o ho).explicit (Render.states_application hwrite o ho) 1
  · unfold readDescriptionText
    rw [readText_document hsound]
    simp only [hmarks]
    rfl

/-- Strict reading of a text refines the lenient one. -/
theorem readDescriptionText_refines (base text : String) :
    Refines (readDescriptionText base true text) (readDescriptionText base false text) := by
  unfold readDescriptionText
  split
  · exact readDescription_refines base _
  · exact .throw _ _

theorem Notice.told?_of_isSkip {n : Notice} (h : n.isSkip = true) : n.told? = none := by
  cases n <;> first | rfl | cases h

/-- If lenient reading notices nothing but styles, strict reading succeeds exactly if there are no
notices, and then it gives the same. -/
theorem Reader.Refines.succeeds_iff {α : Type} {x y : Reading α} {a : α}
    {notices : List Notice} (h : Refines x y) (hy : Gives y [] a notices)
    (honly : ∀ n ∈ notices, n.told?.isSome = true) :
    ((∃ b t, Gives x [] b t) ↔ notices = []) ∧ (notices = [] → Gives x [] a []) := by
  have hgives : notices = [] → Gives x [] a [] := by
    rintro rfl
    obtain ⟨w, hw, hlenient⟩ := h.lenient _ _ _ hy
    refine hlenient fun n hn => ?_
    rw [← List.nil_append w, ← hw] at hn
    cases hn
  refine ⟨⟨?_, fun hnil => ⟨a, [], hgives hnil⟩⟩, hgives⟩
  rintro ⟨b, t, hx⟩
  obtain ⟨hyb, w, hw, hskip⟩ := h.strict _ _ _ hx
  have hrun : (Except.ok b, t) = (Except.ok a, notices) := hyb.symm.trans hy
  obtain rfl : w = notices := by rw [← (Prod.mk.inj hrun).2, hw, List.nil_append]
  refine List.eq_nil_iff_forall_not_mem.2 fun n hn => ?_
  have hsome := honly n hn
  rw [Notice.told?_of_isSkip (hskip n hn)] at hsome
  cases hsome

/-- A description that was read from a text is sound, and the notices told of its styles. -/
theorem told_and_sound {base text : String} {app : Application} {notices : List Notice}
    (hread : Gives (readDescriptionText base false text) [] app notices)
    (hdocs : ∀ d ∈ app.allDocs, d.HoldsText) :
    Told False app.placedStyles notices ∧ app.Sound (plainCriteria base) := by
  unfold readDescriptionText at hread
  split at hread
  · rename_i root hroot
    refine ⟨told_readDescription hread False.elim, ?_⟩
    exact readDescription_sound (plainCriteria_fits base) hread.yields
      (Xml.holds_readText hroot).withoutMarks hdocs
  · exact absurd hread gives_throw

/-- If strict reading took a description, only params of its responses can have styles that are not
customary. -/
theorem unusualStyles_eq_nil_iff {base text : String} {app : Application} {notices : List Notice}
    (hread : Gives (readDescriptionText base true text) [] app notices)
    (htold : Told False app.placedStyles notices) :
    app.unusualStyles = [] ↔ ∀ s ∈ app.placedStyles,
      s.location = .response → s.style = .header := by
  obtain ⟨warned, silent, hperm, hwarned, hsilent⟩ := htold.all
  obtain ⟨-, w, hw, hskip⟩ := (readDescriptionText_refines base text).strict _ _ _ hread
  obtain rfl : warned = [] := by
    rw [hw, List.nil_append, List.filterMap_eq_nil_iff.2 fun n hn =>
      Notice.told?_of_isSkip (hskip n hn)] at hwarned
    exact List.map_eq_nil_iff.1 hwarned.symm
  have hmem : ∀ s, s ∈ app.unusualStyles ↔ s ∈ app.placedStyles ∧ s.isUnusual = true :=
    fun _ => List.mem_filter
  constructor
  · intro hnil s hs hlocation
    have hcustomary : s.isUnusual = false := by
      by_contra hunusual
      have hs' := (hmem s).2 ⟨hs, by simpa using hunusual⟩
      rw [hnil] at hs'
      cases hs'
    simpa [PlacedStyle.isUnusual, hlocation, ElementKind.styles] using hcustomary
  · intro hheader
    refine List.eq_nil_iff_forall_not_mem.2 fun s hs => ?_
    obtain ⟨⟨hlocation, hquery⟩, -⟩ := hsilent s (hperm.mem_iff.2 hs)
    rw [hheader s ((hmem s).1 hs).1 hlocation] at hquery
    cases hquery

/-- A description that was read is written with every style stated. Lenient reading of what is
written gives the same description again, and its only notices warn of exactly the styles that are
not customary where they stand, while reading the description first passed over some that params of
responses had by default. If the description was read strictly, strict reading takes what is written
exactly if all params of its responses are headers; it then gives the same description without
notices. -/
theorem rendered_styles {base text : String} {app : Application} {notices : List Notice}
    (hbase : HttpBase base) (hread : Gives (readDescriptionText base false text) [] app notices)
    (hdocs : ∀ d ∈ app.allDocs, d.HoldsText) :
    ∃ written again warnings, render app = .ok written ∧ again.same app = true ∧
      Gives (readDescriptionText base false written) [] again warnings ∧
      (∀ n ∈ warnings, n.told?.isSome = true) ∧
      (warnings.filterMap Notice.told?).Perm (app.unusualStyles.map PlacedStyle.told) ∧
      (∃ warned silent : List PlacedStyle, (warned ++ silent).Perm app.unusualStyles ∧
        notices.filterMap Notice.told? = warned.map PlacedStyle.told ∧
        ∀ s ∈ silent, s.location = .response ∧ s.style = .query) ∧
      (Gives (readDescriptionText base true text) [] app notices →
        ((∃ other more, Gives (readDescriptionText base true written) [] other more) ↔
          ∀ s ∈ app.placedStyles, s.location = .response → s.style = .header) ∧
        ((∀ s ∈ app.placedStyles, s.location = .response → s.style = .header) →
          Gives (readDescriptionText base true written) [] again [])) := by
  obtain ⟨htold, hsound⟩ := told_and_sound hread hdocs
  obtain rfl : app.baseUri = base := hsound.base
  obtain ⟨written, hrender, again, hagain, hsame, -⟩ := render_reads_back hbase hread.yields hdocs
  obtain ⟨warnings, hwarnings⟩ := hagain []
  obtain ⟨root, hexplicit, hroot⟩ := render_explicit hbase hsound hrender
  -- what is written states every style, so nothing is passed over
  have hplaced : again.placedStyles = app.placedStyles := by
    rw [← again.placedStyles_sourceless, ← app.placedStyles_sourceless]
    exact congrArg _ (by simpa [Application.same] using hsame)
  have hagainTold : Told True app.placedStyles warnings := by
    rw [hroot] at hwarnings
    rw [← hplaced]
    refine told_readDescription hwarnings fun _ e he => ?_
    rwa [Element.node_inj he]
  obtain ⟨hwarned, hnone⟩ := hagainTold.of_stated
  obtain ⟨warned, silent, hperm, hnotices, hsilent⟩ := htold.all
  refine ⟨written, again, warnings, hrender, hsame, hwarnings, hagainTold.only trivial, hwarned,
    ⟨warned, silent, hperm, hnotices, fun s hs => (hsilent s hs).1⟩, fun hstrict => ?_⟩
  obtain ⟨hsucceeds, hgives⟩ :=
    (readDescriptionText_refines app.baseUri written).succeeds_iff hwarnings
      (hagainTold.only trivial)
  have hheaders : warnings = [] ↔ ∀ s ∈ app.placedStyles,
      s.location = .response → s.style = .header :=
    hnone.trans (unusualStyles_eq_nil_iff hstrict htold)
  exact ⟨hsucceeds.trans hheaders, fun h => hgives (hheaders.2 h)⟩

/-- A description whose only style that is not customary is the default of a param of a response. -/
def defaultedStyles : String :=
  "<application><resources><resource path='r'><method name='GET'><request><param name='q'/></request>" ++
    "<response><param name='p'/></response></method></resource></resources></application>"

theorem rendered_styles_defaulted :
    ∃ app, Gives (readDescriptionText "http://h/d" true defaultedStyles) [] app [] ∧
      app.unusualStyles = [⟨.response, .query, "param[p]"⟩] ∧
      ∃ written again warnings, render app = .ok written ∧ again.same app = true ∧
        Gives (readDescriptionText "http://h/d" false written) [] again warnings ∧
        warnings.filterMap Notice.told? = [("query", "response", "param[p]")] ∧
        ¬∃ other more, Gives (readDescriptionText "http://h/d" true written) [] other more := by
  have hrun : (Id.run ((readDescriptionText "http://h/d" true defaultedStyles).run.run [])).2 = [] ∧
      (Id.run ((readDescriptionText "http://h/d" true defaultedStyles).run.run [])).1.toOption.map
        (fun app => (app.allDocs, app.unusualStyles)) =
          some ([], [⟨.response, .query, "param[p]"⟩]) := by
    have hchars : defaultedStyles.toList = _ :=
      String.toList_append.trans (congrArg₂ (· ++ ·) String.toList_ofList String.toList_ofList)
    rw [readDescriptionText, Xml.readText, hchars]
    decide +kernel
  rcases hx : Id.run
    ((readDescriptionText "http://h/d" true defaultedStyles).run.run []) with ⟨_ | app, t⟩
  · rw [hx] at hrun
    cases hrun.2
  · rw [hx] at hrun
    obtain ⟨rfl, happ⟩ := hrun
    obtain ⟨hdocs, hunusual⟩ := Prod.mk.inj (Option.some.inj happ)
    have hstrict : Gives (readDescriptionText "http://h/d" true defaultedStyles) [] app [] := hx
    have hlenient := ((readDescriptionText_refines _ _).strict _ _ _ hstrict).1
    obtain ⟨written, again, warnings, hrender, hsame, hagain, -, hwarned, -, hiff⟩ :=
      rendered_styles httpBase_short hlenient (by rw [hdocs]; exact List.forall_mem_nil _)
    refine ⟨app, hstrict, hunusual, written, again, warnings, hrender, hsame, hagain,
      ?_, fun hother => ?_⟩
    · rw [hunusual] at hwarned
      exact List.perm_singleton.1 hwarned
    · have hmem : (⟨.response, .query, "param[p]"⟩ : PlacedStyle) ∈ app.unusualStyles := by
        rw [hunusual]
        exact List.mem_cons_self
      have hheader := (hiff hstrict).1.1 hother _ (List.mem_filter.1 hmem).1 rfl
      cases hheader

end Wadl
