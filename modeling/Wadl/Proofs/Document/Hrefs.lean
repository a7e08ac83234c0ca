import Wadl.Document.References
import Wadl.Proofs.Document.Gathering
import Wadl.Proofs.Document.Identifiers

/-!
# Which references a document has

`hrefsIn` reads the references of a document off its tree, each with the kind of definition that is
asked for where it stands. The references of a description that is read are these, in the same
order, joined with the base (`joined_readDescription`).
-/

namespace Wadl

open Reader

namespace Reader

/-! ## References of a tree -/

/-- The reference of a link, if it names a type. -/
def linkHrefs (e : Element) : List (DefinitionKind × String) :=
  ((e.get? "resource_type").filter (!·.isEmpty)).toList.map (.resourceType, ·)

/-- The reference that an element is, else those that stand in it. -/
def hrefOr (kind : DefinitionKind) (inside : Element → List (DefinitionKind × String))
    (e : Element) : List (DefinitionKind × String) :=
  match e.get? "href" with
  | some href => [(kind, href)]
  | none => inside e

section HrefOr

variable {kind : DefinitionKind} {inside : Element → List (DefinitionKind × String)} {e : Element}

theorem hrefOr_of_some {href : String} (h : e.get? "href" = some href) :
    hrefOr kind inside e = [(kind, href)] := by
  rw [hrefOr, h]

theorem hrefOr_of_none (h : e.get? "href" = none) : hrefOr kind inside e = inside e := by
  rw [hrefOr, h]

end HrefOr

/-- The references of the params among some content. -/
def paramHrefsIn (content : List Xml.Node) : List (DefinitionKind × String) :=
  (childrenOf .param content).flatMap
    (hrefOr .param fun e => (childrenOf .link e.content).flatMap linkHrefs)

/-- The references of the params and the representations in a request or a response. -/
def bodyHrefsIn (content : List Xml.Node) : List (DefinitionKind × String) :=
  paramHrefsIn content ++
    (childrenOf .representation content).flatMap
      (hrefOr .representation fun e => paramHrefsIn e.content)

/-- The references in the request and the responses of a method. -/
def methodHrefs (e : Element) : List (DefinitionKind × String) :=
  (childrenOf .request e.content).flatMap (fun e => bodyHrefsIn e.content) ++
    (childrenOf .response e.content).flatMap fun e => bodyHrefsIn e.content

/-- The references of the methods among some content. -/
def methodHrefsIn (content : List Xml.Node) : List (DefinitionKind × String) :=
  (childrenOf .method content).flatMap (hrefOr .method methodHrefs)

mutual

/-- The references of a resource, if a piece is one: its types, and those of what stands in it. -/
def resourceHrefs : Xml.Node → List (DefinitionKind × String)
  | .element tag content =>
    if isResourceTag tag then
      (wordsOf ((tag.get? "type").getD "")).map (.resourceType, ·) ++ paramHrefsIn content ++
        methodHrefsIn content ++ resourceHrefsIn content
    else []
  | _ => []

/-- The references of the resources among some content. -/
def resourceHrefsIn : List Xml.Node → List (DefinitionKind × String)
  | [] => []
  | n :: rest => resourceHrefs n ++ resourceHrefsIn rest

end

/-- The references of a document, of which this is the content of the root, with the kinds of
definitions that are asked for. -/
def hrefsIn (content : List Xml.Node) : List (DefinitionKind × String) :=
  (childrenOf .resources content).flatMap (fun e => resourceHrefsIn e.content) ++
    (childrenOf .resourceType content).flatMap
      (fun e => paramHrefsIn e.content ++ methodHrefsIn e.content ++ resourceHrefsIn e.content) ++
    (childrenOf .representation content).flatMap
      (hrefOr .representation fun e => paramHrefsIn e.content) ++
    (childrenOf .param content).flatMap
      (hrefOr .param fun e => (childrenOf .link e.content).flatMap linkHrefs) ++
    (childrenOf .method content).flatMap methodHrefs

/-! ## References that are read -/

/-- References are those of a tree, joined with a base. -/
def Joined (base : String) (hrefs : List (DefinitionKind × String))
    (refs : List Reference) : Prop :=
  List.Forall₂ (fun x r => r.kind = x.1 ∧ joinUri base x.2 = .ok r.href) hrefs refs

theorem Joined.append {base : String} {hrefs more : List (DefinitionKind × String)}
    {refs others : List Reference} (h : Joined base hrefs refs) (h' : Joined base more others) :
    Joined base (hrefs ++ more) (refs ++ others) :=
  List.rel_append h h'

/-- Hrefs are joined part by part. -/
theorem joined_flatMap {α β : Type} {R : β → α → Prop} {base : String}
    {g : β → List (DefinitionKind × String)} {f : α → List Reference} {ys : List β} {xs : List α}
    (hxs : List.Forall₂ R ys xs) (h : ∀ y x, R y x → Joined base (g y) (f x)) :
    Joined base (ys.flatMap g) (xs.flatMap f) :=
  List.rel_flatMap hxs fun _ _ hyx => h _ _ hyx

section Readers

variable {base : String} {pos : Position} {k : ElementKind} {e : Element}
    {found : List (ElementKind × Element)}

/-- A reference that is read is its href, joined with the base. -/
theorem joined_reference {kind : DefinitionKind} {href : String} {r : Reference}
    (h : Yields (reference pos kind href) r) (hbase : pos.base = base) :
    Joined base [(kind, href)] [r] := by
  unfold reference at h
  split at h
  · rename_i uri huri
    rw [← h.pure, ← hbase]
    exact .cons ⟨rfl, huri⟩ .nil
  · exact absurd h not_yields_throw

/-- So are those in a link; the lemmas below go up from here, one for each element. -/
theorem joined_readLink {l : Link} (h : Yields (readLink pos e) l) (hbase : pos.base = base) :
    Joined base (linkHrefs e) l.references := by
  obtain ⟨target, htarget, h⟩ := h.bind
  obtain ⟨_, -, h⟩ := h.bind
  obtain rfl := h.pure
  unfold readTarget at htarget
  rw [linkHrefs, Link.references]
  split at htarget
  · rename_i href hhref
    rw [hhref]
    split at htarget
    · rename_i hempty
      rw [← htarget.pure, Option.filter_some, if_neg (by simpa using hempty)]
      exact .nil
    · rename_i hfilled
      obtain ⟨r, hr, rfl⟩ := htarget.map
      rw [Option.filter_some, if_pos (by simpa using hfilled)]
      exact joined_reference hr hbase
  · rename_i hnone
    rw [hnone, ← htarget.pure]
    exact .nil

/-- A param has the href it is given by, or those of its links. -/
theorem joined_readParam {item : ParamItem} (h : Yields (readParam pos k e) item)
    (hbase : pos.base = base) :
    Joined base (hrefOr .param (fun e => (childrenOf .link e.content).flatMap linkHrefs) e)
      item.references := by
  simp only [readParam] at h
  obtain ⟨_, -, h⟩ := h.bind
  split at h
  · rename_i href hhref
    obtain ⟨r, hr, h⟩ := h.bind
    rw [← h.pure, hrefOr_of_some hhref]
    exact joined_reference hr hbase
  · rename_i hhref
    obtain ⟨p, hp, h⟩ := h.bind
    rw [← h.pure, hrefOr_of_none hhref]
    simp only [readParamBody] at hp
    obtain ⟨_, -, hp⟩ := hp.bind
    obtain ⟨_, -, hp⟩ := hp.bind
    obtain ⟨found, hfound, hp⟩ := hp.bind
    obtain ⟨_, -, hp⟩ := hp.bind
    obtain ⟨_, -, hp⟩ := hp.bind
    obtain ⟨_, -, hp⟩ := hp.bind
    obtain ⟨_, -, hp⟩ := hp.bind
    obtain ⟨links, hlinks, hp⟩ := hp.bind
    rw [← hp.pure]
    rw [ofKind_of_yields hfound] at hlinks
    exact joined_flatMap hlinks.mapM fun _ _ hread => joined_readLink hread hbase

theorem joined_readParams {content : List Xml.Node} {params : List ParamItem} {l : ElementKind}
    (hfound : Yields (items pos l content) found) (h : Yields (readParams pos k found) params)
    (hbase : pos.base = base) :
    Joined base (paramHrefsIn content) (params.flatMap ParamItem.references) := by
  obtain ⟨ps, hps, h⟩ := h.bind
  obtain ⟨_, -, h⟩ := h.bind
  obtain rfl := h.pure
  rw [paramHrefsIn, ← ofKind_of_yields hfound]
  exact joined_flatMap hps.mapM fun _ _ hread => joined_readParam hread hbase

/-- A representation has the href it is given by, or those of its params. -/
theorem joined_readRepresentation {item : RepresentationItem}
    (h : Yields (readRepresentation pos k e) item) (hbase : pos.base = base) :
    Joined base (hrefOr .representation (fun e => paramHrefsIn e.content) e) item.references := by
  simp only [readRepresentation] at h
  obtain ⟨_, -, h⟩ := h.bind
  split at h
  · rename_i href hhref
    obtain ⟨r, hr, h⟩ := h.bind
    rw [← h.pure, hrefOr_of_some hhref]
    exact joined_reference hr hbase
  · rename_i hhref
    obtain ⟨r, hr, h⟩ := h.bind
    rw [← h.pure, hrefOr_of_none hhref]
    obtain ⟨found, hfound, hr⟩ := hr.bind
    obtain ⟨params, hparams, hr⟩ := hr.bind
    obtain rfl := hr.pure
    exact joined_readParams hfound hparams hbase

/-- A body has the hrefs of its params and its representations. -/
theorem joined_body {content : List Xml.Node} {params : List ParamItem}
    {items : List RepresentationItem} {l k' : ElementKind}
    (hfound : Yields (Reader.items pos l content) found)
    (hparams : Yields (readParams pos k found) params)
    (hitems : Yields (readRepresentations pos k' found) items) (hbase : pos.base = base) :
    Joined base (bodyHrefsIn content)
      (params.flatMap ParamItem.references ++ items.flatMap RepresentationItem.references) := by
  refine (joined_readParams hfound hparams hbase).append ?_
  rw [← ofKind_of_yields hfound]
  exact joined_flatMap hitems.mapM fun _ _ hread => joined_readRepresentation hread hbase

theorem joined_readRequest {r : Request} (h : Yields (readRequest pos e) r)
    (hbase : pos.base = base) : Joined base (bodyHrefsIn e.content) r.references := by
  obtain ⟨found, hfound, h⟩ := h.bind
  obtain ⟨params, hparams, h⟩ := h.bind
  obtain ⟨items, hitems, h⟩ := h.bind
  obtain rfl := h.pure
  exact joined_body hfound hparams hitems hbase

theorem joined_readResponse {r : Response} (h : Yields (readResponse pos e) r)
    (hbase : pos.base = base) : Joined base (bodyHrefsIn e.content) r.references := by
  simp only [readResponse] at h
  obtain ⟨_, -, h⟩ := h.bind
  obtain ⟨found, hfound, h⟩ := h.bind
  obtain ⟨params, hparams, h⟩ := h.bind
  obtain ⟨items, hitems, h⟩ := h.bind
  obtain rfl := h.pure
  exact joined_body hfound hparams hitems hbase

theorem joined_readOnlyRequest {es : List Element} {request : Option Request}
    (h : Yields (readOnlyRequest pos es) request) (hbase : pos.base = base) :
    Joined base (es.flatMap fun e => bodyHrefsIn e.content)
      (request.toList.flatMap Request.references) := by
  match es with
  | [] =>
    obtain rfl := h.pure
    exact .nil
  | [e] =>
    obtain ⟨r, hr, rfl⟩ := h.map
    exact joined_flatMap (.cons hr .nil) fun _ _ hread => joined_readRequest hread hbase
  | _ :: _ :: _ => exact absurd h not_yields_throw

/-- A method has the hrefs of its request and its responses. -/
theorem joined_readMethodBody {m : Method} (h : Yields (readMethodBody pos e) m)
    (hbase : pos.base = base) : Joined base (methodHrefs e) m.references := by
  simp only [readMethodBody] at h
  obtain ⟨_, -, h⟩ := h.bind
  obtain ⟨found, hfound, h⟩ := h.bind
  obtain ⟨request, hrequest, h⟩ := h.bind
  obtain ⟨responses, hresponses, h⟩ := h.bind
  obtain rfl := h.pure
  rw [ofKind_of_yields hfound] at hrequest hresponses
  exact (joined_readOnlyRequest hrequest hbase).append
    (joined_flatMap hresponses.mapM fun _ _ hread => joined_readResponse hread hbase)

theorem joined_readMethods {content : List Xml.Node} {methods : List MethodItem} {l : ElementKind}
    (hfound : Yields (items pos l content) found) (h : Yields (readMethods pos found) methods)
    (hbase : pos.base = base) :
    Joined base (methodHrefsIn content) (methods.flatMap MethodItem.references) := by
  obtain ⟨ms, hms, h⟩ := h.bind
  obtain ⟨_, -, h⟩ := h.bind
  obtain rfl := h.pure
  rw [methodHrefsIn, ← ofKind_of_yields hfound]
  refine joined_flatMap hms.mapM fun e' item hread => ?_
  simp only [readMethod] at hread
  split at hread
  · rename_i href hhref
    obtain ⟨r, hr, hread⟩ := hread.bind
    rw [← hread.pure, hrefOr_of_some hhref]
    exact joined_reference hr hbase
  · rename_i hhref
    obtain ⟨m, hm, hread⟩ := hread.bind
    rw [← hread.pure, hrefOr_of_none hhref]
    exact joined_readMethodBody hm hbase

mutual

/-- A resource has its types and the hrefs in it, in order, and so have those below; by induction on
the nodes. -/
theorem joined_readIfResource :
    ∀ (n : Xml.Node) {pos : Position} {inherited : List String} {r : Option Resource},
    Yields (readIfResource pos inherited n) r → pos.base = base →
      Joined base (resourceHrefs n) (resourceReferences r.toList)
  | .element tag content, pos, inherited, r, h, hbase => by
    rw [readIfResource] at h
    rw [resourceHrefs]
    split at h
    · rename_i htag
      rw [if_pos htag]
      obtain ⟨r, hr, rfl⟩ := h.map
      simp only [readResource] at hr
      obtain ⟨found, hfound, hr⟩ := hr.bind
      obtain ⟨params, hparams, hr⟩ := hr.bind
      obtain ⟨methods, hmethods, hr⟩ := hr.bind
      obtain ⟨types, htypes, hr⟩ := hr.bind
      obtain ⟨resources, hresources, hr⟩ := hr.bind
      obtain ⟨_, -, hr⟩ := hr.bind
      obtain rfl := hr.pure
      rw [Option.toList_some, resourceReferences, resourceReferences, List.append_nil,
        Resource.references.eq_def]
      have hjoined :
          Joined base ((wordsOf ((tag.get? "type").getD "")).map (.resourceType, ·)) types := by
        rw [Joined, List.forall₂_map_left_iff]
        refine htypes.mapM.imp fun _ _ ht => ?_
        exact (List.forall₂_cons.1 (joined_reference ht hbase)).1
      exact ((hjoined.append (joined_readParams hfound hparams hbase)).append
        (joined_readMethods hfound hmethods hbase)).append
          (joined_readResources content hresources hbase)
    · rename_i htag
      rw [if_neg htag, ← h.pure]
      exact .nil
  | .text _, _, _, _, h, _ | .comment _, _, _, _, h, _ | .instruction _, _, _, _, h, _ => by
    rw [← h.pure]
    exact .nil

theorem joined_readResources :
    ∀ (content : List Xml.Node) {pos : Position} {inherited : List String}
    {rs : List Resource}, Yields (readResources pos inherited content) rs → pos.base = base →
      Joined base (resourceHrefsIn content) (resourceReferences rs)
  | [], _, _, _, h, _ => by
    rw [readResources] at h
    rw [← h.pure]
    exact .nil
  | n :: rest, pos, inherited, rs, h, hbase => by
    rw [readResources] at h
    obtain ⟨first, hfirst, h⟩ := h.bind
    obtain ⟨more, hmore, h⟩ := h.bind
    have happend :=
      (joined_readIfResource n hfirst hbase).append (joined_readResources rest hmore hbase)
    rw [← h.pure, resourceHrefsIn]
    cases first with
    | none => exact happend
    | some r => simpa [resourceReferences] using happend

end

/-- A resource type has the hrefs of all that is read in it. -/
theorem joined_readResourceType {t : ResourceType} (h : Yields (readResourceType pos e) t)
    (hbase : pos.base = base) :
    Joined base (paramHrefsIn e.content ++ methodHrefsIn e.content ++ resourceHrefsIn e.content)
      t.references := by
  simp only [readResourceType] at h
  obtain ⟨_, -, h⟩ := h.bind
  obtain ⟨found, hfound, h⟩ := h.bind
  obtain ⟨params, hparams, h⟩ := h.bind
  obtain ⟨methods, hmethods, h⟩ := h.bind
  obtain ⟨resources, hresources, h⟩ := h.bind
  obtain rfl := h.pure
  exact ((joined_readParams hfound hparams hbase).append
    (joined_readMethods hfound hmethods hbase)).append
    (joined_readResources e.content hresources hbase)

theorem joined_readGroup {g : ResourceGroup} (h : Yields (readGroup pos e) g)
    (hbase : pos.base = base) :
    Joined base (resourceHrefsIn e.content) (resourceReferences g.resources) := by
  simp only [readGroup] at h
  obtain ⟨_, -, h⟩ := h.bind
  obtain ⟨resources, hresources, h⟩ := h.bind
  obtain rfl := h.pure
  exact joined_readResources e.content hresources hbase

theorem joined_readTopMethod {m : Method} (h : Yields (readTopMethod pos e) m)
    (hbase : pos.base = base) : Joined base (methodHrefs e) m.references := by
  simp only [readTopMethod] at h
  obtain ⟨_, -, h⟩ := h.bind
  exact joined_readMethodBody h hbase

end Readers

end Reader

/-- The references of a description that is read are those of the document, joined with the base. -/
theorem joined_readDescription {base : String} {strict : Bool} {e : Element} {app : Application}
    (h : Yields (readDescription base strict e.node) app) :
    Joined base (hrefsIn e.content) app.references := by
  obtain ⟨app', happ, h⟩ := h.bind
  obtain ⟨_, -, h⟩ := h.bind
  obtain rfl := h.pure
  simp only [Element.node, readApplication] at happ
  split at happ
  · obtain ⟨_, hthrow, -⟩ := happ.bind
    exact absurd hthrow not_yields_throw
  · obtain ⟨found, hfound, happ⟩ := happ.bind
    obtain ⟨parts, rfl, hparts⟩ := gathered_of_yields happ
    simp only [hrefsIn, ← ofKind_of_yields hfound, Application.references,
      Application.plus, List.nil_append]
    refine ((((joined_flatMap hparts.resources ?_).append
      (joined_flatMap hparts.resourceTypes ?_)).append
      (joined_flatMap hparts.representations ?_)).append (joined_flatMap hparts.params ?_)).append
        (joined_flatMap hparts.methods ?_)
    · exact fun _ _ hread => joined_readGroup hread rfl
    · exact fun _ _ hread => joined_readResourceType hread rfl
    · exact fun _ _ hread => joined_readRepresentation hread rfl
    · exact fun _ _ hread => joined_readParam hread rfl
    · exact fun _ _ hread => joined_readTopMethod hread rfl

end Wadl
