import Wadl.Proofs.Document.Rereading.Resources
import Wadl.Proofs.Document.Written

/-!
# Descriptions are read as they are written

`render_reads_back`: a description that was read leniently with an http or https base, and whose
documentation holds text only, is written as a document that is read as the same description again,
sources apart, and is then written as the same text. What is read is sound
(`readDescription_sound`), what is sound is written as outlines that are read again part by part,
and the document of the outlines is read as their tree (`readText_document`).
-/

namespace Wadl

open Reader Outline

/-! ## Documentation that holds text -/

/-- Documentation in the namespace of descriptions, or in none, that holds only text without
carriage returns. -/
def Doc.HoldsText (d : Doc) : Prop :=
  ∃ e : Element, e.tag.name.isWadl = true ∧ (∀ n ∈ e.content, ∃ s, n = .text s ∧ '\r' ∉ s.toList) ∧
    d = readDoc e

/-- Text in pieces is escaped as a whole. -/
theorem markupText_texts :
    ∀ {content : List Xml.Node}, (∀ n ∈ content, ∃ s, n = .text s ∧ '\r' ∉ s.toList) →
      ∃ t : String, '\r' ∉ t.toList ∧ markupText true content = Xml.escapeText t
  | [], _ => ⟨"", by simp, Xml.escapeText_empty.symm⟩
  | n :: rest, h => by
    obtain ⟨⟨s, rfl, hs⟩, hrest⟩ := List.forall_mem_cons.1 h
    obtain ⟨t, ht, hmarkup⟩ := markupText_texts hrest
    refine ⟨s ++ t, by simp [hs, ht], ?_⟩
    rw [markupText, if_pos rfl, hmarkup, Xml.escapeText_append]

theorem mark_mem_written (tag : Xml.Tag) (content : List Xml.Node) :
    '<' ∈ (Xml.Node.element tag content).written.toList := by
  unfold Xml.Node.written Xml.Node.writtenWith
  simp only
  split <;> simp

/-- Markup without tags holds only characters that documents may hold. -/
theorem isText_markupText :
    ∀ {content : List Xml.Node} {kept : Bool}, (∀ n ∈ content, n.Holds Xml.IsText) →
      '<' ∉ (markupText kept content).toList → Xml.IsText (markupText kept content)
  | [], _, _, _ => by simp [markupText, Xml.IsText]
  | .text s :: rest, kept, h, hmark => by
    obtain ⟨hs, hrest⟩ := List.forall_mem_cons.1 h
    cases hs with
    | text hs =>
      rw [markupText, String.toList_append, List.mem_append, not_or] at hmark
      rw [markupText]
      refine Xml.IsText.append ?_ (isText_markupText hrest hmark.2)
      split
      · exact Xml.isText_escapeText.2 hs
      · simp [Xml.IsText]
  | .element tag inside :: rest, kept, h, hmark => by
    rw [markupText, String.toList_append, List.mem_append, not_or, plainMarkup] at hmark
    exact absurd (mark_mem_written _ _) hmark.1
  | .comment s :: rest, kept, h, hmark => by
    have hrest : Xml.IsText (markupText false rest) :=
      isText_markupText (List.forall_mem_cons.1 h).2 hmark
    exact hrest
  | .instruction s :: rest, kept, h, hmark => by
    have hrest : Xml.IsText (markupText false rest) :=
      isText_markupText (List.forall_mem_cons.1 h).2 hmark
    exact hrest

/-- Documentation that holds text, and was read from a tree of texts that documents may hold, is
plain. -/
theorem plain_of_holdsText {e : Element} (he : e.Holds Xml.IsText) (h : (readDoc e).HoldsText) :
    (readDoc e).Plain := by
  obtain ⟨other, hspace, hcontent, heq⟩ := h
  obtain ⟨t, ht, hmarkup⟩ := markupText_texts hcontent
  have hchildren : Xml.childTags other.content = [] := by
    unfold Xml.childTags
    rw [List.filterMap_eq_nil_iff]
    intro n hn
    obtain ⟨s, rfl, -⟩ := hcontent n hn
    rfl
  have hescaped : (readDoc e).content = Xml.escapeText t := by
    rw [heq]
    exact hmarkup
  have htext : Xml.IsText (markupText true e.content) := by
    refine isText_markupText he.inside fun hmem => ?_
    have hmem : '<' ∈ (readDoc e).content.toList := hmem
    rw [hescaped] at hmem
    exact (Xml.mem_escapeText hmem).1 rfl
  have hdoc : Xml.IsText (readDoc e).content := htext
  rw [hescaped] at hdoc
  constructor
  · show (plainCriteria "").Texts _
    simp only [Criteria.texts_cons]
    exact ⟨he.get?, he.attribute?, Criteria.texts_nil _⟩
  · rw [heq, readDoc, hchildren]
    simp [foreignSpace, hspace]
  · exact ⟨t, Xml.isText_escapeText.1 hdoc, ht, hescaped⟩

theorem plainCriteria_fits (base : String) : (plainCriteria base).Fits Doc.HoldsText := by
  constructor
  · have hall : ∀ c ∈ "xs:string".toList, Xml.isChar c = true := List.all_eq_true.1 (by decide)
    exact hall
  · have hall : ∀ c ∈ formMediaType.toList, Xml.isChar c = true := List.all_eq_true.1 (by decide)
    exact hall
  · exact fun hs hw c hc => hs c (mem_of_mem_wordsOf hw hc)
  · exact plain_of_holdsText

/-! ## The items of a description -/

theorem always_foldlM_append {ε σ α β : Type} {f : β → α → ExceptT ε (StateM σ) β} {xs ys : List α}
    {a b c : β} (hxs : Always (xs.foldlM f a) b) (hys : Always (ys.foldlM f b) c) :
    Always ((xs ++ ys).foldlM f a) c := by
  rw [List.foldlM_append]
  exact hxs.bind hys

theorem always_checkNew {pos : Position} {kind : ElementKind} {id : Option String}
    {earlier : List (Option String)} (h : id ∉ earlier) :
    Always (checkNew pos kind id earlier) () := by
  refine always_refuse ?_ _
  cases id with
  | none => rfl
  | some i => simp [Option.filter, h]

section Items

variable {T : Type} (pos : Position) {depth : Nat}

/-- The items of one kind are added one by one to a description; `put` is the description with some
of them, and `check` what is checked of a new one. -/
theorem always_addItems_after (codec : Codec T) (put : List T → Application)
    (check : List T → T → Reading Unit) (step : ∀ xs e, addItem pos (put xs) (codec.kind, e) = do
      let x ← codec.read pos e
      check xs x
      return put (xs ++ [x]))
    {os : List Outline} {ys : List T} (hos : AllOf codec.kind os)
    (hread : List.Forall₂ (fun o y => Always (codec.read pos (asElement depth o)) y) os ys) :
    ∀ {xs : List T},
      (∀ before y after, ys = before ++ y :: after → Always (check (xs ++ before) y) ()) →
      Always ((asItems depth os).foldlM (addItem pos) (put xs)) (put (xs ++ ys)) := by
  induction hread with
  | nil =>
    intro xs _
    rw [List.append_nil]
    exact always_pure _
  | @cons o y os ys hfirst _ ih =>
    intro xs hcheck
    obtain ⟨ho, hos⟩ := List.forall_mem_cons.1 hos
    have hnew := hcheck [] y ys rfl
    rw [List.append_nil] at hnew
    have hrest : Always ((asItems depth os).foldlM (addItem pos) (put (xs ++ [y])))
        (put (xs ++ [y] ++ ys)) := by
      refine ih hos fun before z after hsplit => ?_
      rw [List.append_assoc]
      exact hcheck (y :: before) z after (congrArg (y :: ·) hsplit)
    rw [List.append_assoc] at hrest
    have hitem : Always (addItem pos (put xs) (o.kind, o.asElement depth)) (put (xs ++ [y])) := by
      rw [ho, step]
      exact hfirst.bind (hnew.bind (always_pure _))
    exact hitem.bind hrest

/-- The first items of a kind are added one by one. -/
theorem always_addItems (codec : Codec T) (put : List T → Application)
    (check : List T → T → Reading Unit) (step : ∀ xs e, addItem pos (put xs) (codec.kind, e) = do
      let x ← codec.read pos e
      check xs x
      return put (xs ++ [x]))
    {os : List Outline} {ys : List T} (hos : AllOf codec.kind os)
    (hread : List.Forall₂ (fun o y => Always (codec.read pos (asElement depth o)) y) os ys)
    (hcheck : ∀ before y after, ys = before ++ y :: after → Always (check before y) ()) :
    Always ((asItems depth os).foldlM (addItem pos) (put [])) (put ys) :=
  always_addItems_after pos codec put check step hos hread hcheck

end Items

/-- Definitions whose identifiers differ are new one after the other. -/
theorem notMem_of_nodup {T : Type} {id : T → Option String} {ys : List T} (h : (ys.map id).Nodup) :
    ∀ before y after, ys = before ++ y :: after → id y ∉ before.map id := by
  rintro before y after rfl hmem
  rw [List.map_append, List.map_cons, List.nodup_append] at h
  exact h.2.2 (id y) hmem (id y) List.mem_cons_self rfl

/-! ## Grammars -/

/-- The outline of an included grammar. -/
def includeOutline (href : String) : Outline := Render.element .include [("href", some href)] []

theorem include_rereads {href : String} (h : Xml.IsText href) :
    (includeOutline href).Sound ∧ (includeOutline href).kind = .include ∧
      ∀ depth, ((includeOutline href).asElement depth).get? "href" = some href := by
  have hnames : Named ([("href", some href)].map (·.1)) := (by decide : Named ["href"])
  have htexts : (plainCriteria "").Texts [some href] := by
    simp only [Criteria.texts_cons, Option.some.injEq, forall_eq']
    exact ⟨h, Criteria.texts_nil _⟩
  have hfit : Fit .include [] := by
    intro o ho
    cases ho
  obtain ⟨hsound, hkind⟩ := sound_element hnames htexts hfit
  exact ⟨hsound, hkind, fun depth => get?_element hnames.1 _ (by decide)⟩

/-- The grammars are written in one element, and only if there are any. -/
theorem grammars_reread {hrefs : List String} (h : ∀ href ∈ hrefs, Xml.IsText href) :
    AllOf .grammars (Render.grammars hrefs) ∧ (∀ o ∈ Render.grammars hrefs, o.Sound) ∧
      ∀ pos depth base docs, Always
        ((asItems depth (Render.grammars hrefs)).foldlM (addItem pos)
          ⟨base, docs, [], [], [], [], [], []⟩)
        ⟨base, docs, hrefs, [], [], [], [], []⟩ := by
  cases hrefs with
  | nil =>
    refine ⟨?_, ?_, fun pos depth base docs => always_pure _⟩
    · intro o ho
      cases ho
    · intro o ho
      cases ho
  | cons href hrefs =>
    have houtlines : Render.grammars (href :: hrefs) =
        [Render.element .grammars [] ((href :: hrefs).map includeOutline)] := rfl
    have hincludes : AllOf .include ((href :: hrefs).map includeOutline) := by
      intro o ho
      obtain ⟨x, hx, rfl⟩ := List.mem_map.1 ho
      exact (include_rereads (h x hx)).2.1
    have hfit : Fit .grammars ((href :: hrefs).map includeOutline) := by
      refine hincludes.fit (fun o ho => ?_) (by decide)
      obtain ⟨x, hx, rfl⟩ := List.mem_map.1 ho
      exact (include_rereads (h x hx)).1
    have hnames : Named (([] : List (String × Option String)).map (·.1)) := by decide
    obtain ⟨hsound, hkind⟩ := sound_element hnames (by simp) hfit
    rw [houtlines]
    refine ⟨List.forall_mem_singleton.2 hkind, List.forall_mem_singleton.2 hsound,
      fun pos depth base docs => ?_⟩
    obtain ⟨e, he, hshows⟩ := exists_shows hnames hfit depth
    have hread : Always (readGrammars pos e) (href :: hrefs) := by
      unfold readGrammars
      refine (hshows.items _).bind ?_
      rw [ofKind_allOf hincludes, if_pos rfl]
      refine always_mapM_asElement
        (List.forall₂_map_left_iff.2 (List.forall₂_same.2 fun x hx => ?_))
      exact always_required ((include_rereads (h x hx)).2.2 _) _
    have hitems : asItems depth [Render.element .grammars [] ((href :: hrefs).map includeOutline)] =
        [(.grammars, e)] := by
      rw [← he, ← hkind]
      rfl
    rw [hitems]
    have hadd : Always (addItem pos ⟨base, docs, [], [], [], [], [], []⟩ (.grammars, e))
        ⟨base, docs, href :: hrefs, [], [], [], [], []⟩ := by
      unfold addItem
      exact hread.bind (always_pure _)
    exact hadd.bind (always_pure _)

/-! ## The description -/

theorem map_of_same {T : Type} {plain : T → T} {xs ys : List T} (h : ys.map plain = xs.map plain)
    {id : T → Option String} (hid : ∀ x, id (plain x) = id x) : ys.map id = xs.map id := by
  have hids := congrArg (List.map id) h
  rw [List.map_map, List.map_map] at hids
  have hplain : id ∘ plain = id := funext hid
  rwa [hplain] at hids

theorem always_addDocs {pos : Position} {depth : Nat} {os : List Outline} (hos : AllOf .doc os)
    (app : Application) : Always ((asItems depth os).foldlM (addItem pos) app) app := by
  induction os with
  | nil => exact always_pure app
  | cons o os ih =>
    obtain ⟨ho, hos⟩ := List.forall_mem_cons.1 hos
    have hitem : Always (addItem pos app (o.kind, o.asElement depth)) app := by
      rw [ho]
      exact always_pure app
    exact hitem.bind (ih hos)

/-- What is written in the root are its items. -/
theorem always_rootItems {pos : Position} {children : List Outline}
    (h : Fit .application children) :
    Always (items pos .application ((Outline.root children).content 0)) (asItems 1 children) :=
  @always_items pos .application [("xmlns", some wadlSpace)] children h 0

/-- Definitions of one kind whose identifiers differ are added one by one, where they are read as
they were written; `put` is the description with some of them. -/
theorem exists_added {T : Type} {pos : Position} {depth : Nat} (codec : Codec T)
    (id : T → Option String) (hid : ∀ x, id (codec.plain x) = id x) {xs : List T}
    {os : List Outline} (hids : (xs.map id).Nodup) (hos : AllOf codec.kind os)
    (hread : ∃ ys, ys.map codec.plain = xs.map codec.plain ∧
      List.Forall₂ (fun o y => Always (codec.read pos (asElement depth o)) y) os ys) :
    ∃ ys, ys.map codec.plain = xs.map codec.plain ∧ ∀ put : List T → Application,
      (∀ ys e, addItem pos (put ys) (codec.kind, e) = do
        let y ← codec.read pos e
        checkNew pos codec.kind (id y) (ys.map id)
        return put (ys ++ [y])) →
      Always ((asItems depth os).foldlM (addItem pos) (put [])) (put ys) := by
  obtain ⟨ys, hsame, hys⟩ := hread
  have hdiffer : (ys.map id).Nodup := map_of_same hsame hid ▸ hids
  refine ⟨ys, hsame, fun put hstep => ?_⟩
  exact always_addItems pos codec put (fun ys y => checkNew pos codec.kind (id y) (ys.map id))
    hstep hos hys fun before y after hsplit =>
      always_checkNew (notMem_of_nodup hdiffer before y after hsplit)

/-- The outlines of the definitions of a description, kind by kind. -/
structure Segments where
  types : List Outline
  representations : List Outline
  params : List Outline
  methods : List Outline
  groups : List Outline

namespace Segments

/-- The children of the root of a description. -/
def children (s : Segments) (app : Application) : List Outline :=
  app.docs.map Render.doc ++ Render.grammars app.grammars ++ s.types ++
    s.representations ++ s.params ++ s.methods ++ s.groups

/-- Each segment is what the definitions of its kind are written as. -/
structure Written (s : Segments) (app : Application) : Prop where
  types : (resourceTypeCodec app.baseUri).Written app.baseUri s.types app.resourceTypes
  representations :
    (representationCodec app.baseUri .application).Written app.baseUri s.representations
    app.representations
  params : (paramCodec app.baseUri .application).Written app.baseUri s.params app.params
  methods : (topMethodCodec app.baseUri).Written app.baseUri s.methods app.methods
  groups : (groupCodec app.baseUri).Written app.baseUri s.groups app.resources

variable {s : Segments} {app : Application}

theorem exists_written (hbase : HttpBase app.baseUri)
    (h : app.PartsSound (plainCriteria app.baseUri)) : ∃ s : Segments, s.Written app := by
  obtain ⟨ts, hts⟩ := Codec.rereadsAll fun t ht => resourceType_rereads hbase (h.resourceTypes t ht)
  obtain ⟨rs, hrs⟩ := representations_reread hbase h.representations
  obtain ⟨ps, hps⟩ := Codec.rereadsAll fun p hp => param_rereads hbase (h.params p hp)
  obtain ⟨ms, hms⟩ :=
    Codec.rereadsAll fun m hm => topMethod_rereads hbase (h.methods m hm).1 (h.methods m hm).2
  obtain ⟨gs, hgs⟩ := Codec.rereadsAll fun g hg => group_rereads hbase (h.resources g hg)
  exact ⟨⟨ts, rs, ps, ms, gs⟩, hts, hrs, hps, hms, hgs⟩

theorem Written.render (hs : s.Written app) :
    Render.application app = .ok (Outline.root (s.children app)) := by
  have htypes : app.resourceTypes.mapM (Render.resourceType app.baseUri) = .ok s.types :=
    hs.types.write
  have hrepresentations : app.representations.mapM (Render.representation app.baseUri) =
      .ok s.representations :=
    hs.representations.write
  have hparams : app.params.mapM (Render.param app.baseUri) = .ok s.params := hs.params.write
  have hmethods : app.methods.mapM (Render.methodBody app.baseUri) = .ok s.methods :=
    hs.methods.write
  have hgroups : app.resources.mapM (Render.group app.baseUri) = .ok s.groups := hs.groups.write
  rw [Render.application, htypes, hrepresentations, hparams, hmethods, hgroups]
  rfl

theorem Written.kinds (hs : s.Written app) :
    AllOf .resourceType s.types ∧ AllOf .representation s.representations ∧ AllOf .param s.params ∧
      AllOf .method s.methods ∧ AllOf .resources s.groups :=
  ⟨hs.types.kinds, hs.representations.kinds, hs.params.kinds, hs.methods.kinds, hs.groups.kinds⟩

theorem Written.fit (hs : s.Written app) (h : app.PartsSound (plainCriteria app.baseUri)) :
    Fit .application (s.children app) := by
  obtain ⟨hgrammars, hsounds, -⟩ := grammars_reread h.grammars
  obtain ⟨htypes, hrepresentations, hparams, hmethods, hgroups⟩ := hs.kinds
  have hfront : Fit .application (app.docs.map Render.doc ++ Render.grammars app.grammars) :=
    (fit_docs h.docs (by decide)).append (hgrammars.fit hsounds (by decide))
  exact ((((hfront.append (htypes.fit hs.types.sound (by decide))).append
    (hrepresentations.fit hs.representations.sound (by decide))).append
    (hparams.fit hs.params.sound (by decide))).append
    (hmethods.fit hs.methods.sound (by decide))).append
    (hgroups.fit hs.groups.sound (by decide))

/-- The documentation of a description is read from the children of its root. -/
theorem Written.readDocs_children (hs : s.Written app)
    (h : app.PartsSound (plainCriteria app.baseUri)) (depth : Nat) :
    readDocs (asItems depth (s.children app)) = app.docs := by
  obtain ⟨htypes, hrepresentations, hparams, hmethods, hgroups⟩ := hs.kinds
  simp only [children, readDocs, ofKind_append, ofKind_allOf (allOf_docs h.docs),
    ofKind_allOf (grammars_reread h.grammars).1, ofKind_allOf htypes, ofKind_allOf hrepresentations,
    ofKind_allOf hparams, ofKind_allOf hmethods, ofKind_allOf hgroups,
    reduceCtorEq, if_true, if_false, List.append_nil, map_readDoc h.docs]

/-- The segments are read one after the other, and each fills one field of the description. -/
theorem Written.reads (hs : s.Written app) (h : app.PartsSound (plainCriteria app.baseUri)) :
    ∃ again, Application.sourceless again = app.sourceless ∧
      Always ((asItems 1 (s.children app)).foldlM (addItem ⟨app.baseUri, false, ["application"]⟩)
        ⟨app.baseUri, app.docs, [], [], [], [], [], []⟩) again := by
  have hpos : Lenient app.baseUri ⟨app.baseUri, false, ["application"]⟩ := ⟨rfl, rfl⟩
  obtain ⟨types, htypeSame, htypes⟩ :=
    exists_added (resourceTypeCodec app.baseUri) (some ·.id) (fun _ => rfl)
    h.resourceTypeIds hs.types.kinds (hs.types.reads _ 1 hpos)
  obtain ⟨representations, hrepresentationSame, hrepresentations⟩ :=
    exists_added (representationCodec app.baseUri .application) (·.id)
      RepresentationItem.sourceless_id
      h.representationIds hs.representations.kinds (hs.representations.reads _ 1 hpos)
  obtain ⟨params, hparamSame, hparams⟩ := exists_added (paramCodec app.baseUri .application) (·.id)
    ParamItem.sourceless_id h.paramIds hs.params.kinds (hs.params.reads _ 1 hpos)
  obtain ⟨methods, hmethodSame, hmethods⟩ :=
    exists_added (topMethodCodec app.baseUri) (·.id) (fun _ => rfl)
    h.methodIds hs.methods.kinds (hs.methods.reads _ 1 hpos)
  obtain ⟨groups, hgroupSame, hgroups⟩ := hs.groups.reads _ 1 hpos
  refine ⟨⟨app.baseUri, app.docs, app.grammars, groups, types, representations,
    params, methods⟩, ?_, ?_⟩
  · have htypeSame : types.map ResourceType.sourceless =
      app.resourceTypes.map ResourceType.sourceless := htypeSame
    have hrepresentationSame : representations.map RepresentationItem.sourceless =
        app.representations.map RepresentationItem.sourceless := hrepresentationSame
    have hparamSame : params.map ParamItem.sourceless = app.params.map ParamItem.sourceless :=
      hparamSame
    have hmethodSame : methods.map Method.sourceless = app.methods.map Method.sourceless :=
      hmethodSame
    have hgroupSame : groups.map ResourceGroup.sourceless =
      app.resources.map ResourceGroup.sourceless := hgroupSame
    simp only [Application.sourceless, hgroupSame, htypeSame, hrepresentationSame,
      hparamSame, hmethodSame]
  · simp only [children, asItems_append]
    have hgrammars :=
      (grammars_reread h.grammars).2.2 ⟨app.baseUri, false, ["application"]⟩ 1 app.baseUri app.docs
    have hfront := always_foldlM_append (@always_addDocs _ 1 _ (allOf_docs h.docs) _) hgrammars
    refine always_foldlM_append (always_foldlM_append (always_foldlM_append (always_foldlM_append
      (always_foldlM_append hfront
        (htypes (fun xs => ⟨_, _, _, [], xs, [], [], []⟩) fun _ _ => rfl))
        (hrepresentations (fun xs => ⟨_, _, _, [], types, xs, [], []⟩) fun _ _ => rfl))
        (hparams (fun xs => ⟨_, _, _, [], types, representations, xs, []⟩) fun _ _ => rfl))
        (hmethods (fun xs => ⟨_, _, _, [], types, representations, params, xs⟩) fun _ _ => rfl)) ?_
    exact always_addItems _ (groupCodec app.baseUri)
      (fun xs => ⟨app.baseUri, app.docs, app.grammars, xs, types, representations, params, methods⟩)
      (fun _ _ => pure ()) (fun _ _ => rfl) hs.groups.kinds hgroups fun _ _ _ _ => always_pure ()

end Segments

/-- A sound description is written as a root whose tree is read as the same description. -/
theorem application_rereads {app : Application} (hbase : HttpBase app.baseUri)
    (h : app.PartsSound (plainCriteria app.baseUri)) :
    ∃ children, Render.application app = .ok (Outline.root children) ∧ (∀ o ∈ children, o.Sound) ∧
      ∃ again, Application.sourceless again = app.sourceless ∧
        Always (readApplication app.baseUri false
          (.element rootTag ((Outline.root children).content 0))) again := by
  obtain ⟨s, hs⟩ := Segments.exists_written hbase h
  obtain ⟨again, hsame, hreads⟩ := hs.reads h
  refine ⟨s.children app, hs.render, fun o ho => (hs.fit h o ho).1, again, hsame, ?_⟩
  have hroot : ¬(rootTag.name.label ≠ ElementKind.application.word ∨
      (!rootTag.name.isWadl) = true) := by
    decide
  simp only [readApplication]
  rw [if_neg hroot]
  refine (always_rootItems (hs.fit h)).bind ?_
  rw [hs.readDocs_children h]
  exact hreads

/-! ## The document of a description -/

/-- A description that says the same as another has the same index. -/
theorem ofApplication_of_sourceless {app again : Application}
    (h : again.sourceless = app.sourceless) (hindex : repeatedEntry? [] app.entries = none) :
    ∃ index, Index.ofApplication again = .ok index := by
  have hids : idsOf again.entries = idsOf app.entries := by
    rw [← again.entries_sourceless, h, app.entries_sourceless]
  have hagain : repeatedEntry? [] again.entries = none := (repeatedEntry?_of_idsOf hids).2 hindex
  unfold Index.ofApplication
  split
  · exact ⟨_, rfl⟩
  · rename_i e he
    rw [hagain] at he
    cases he

/-- The document of a sound description is read as the same description. -/
theorem always_readDescriptionText {app : Application} (hbase : HttpBase app.baseUri)
    (h : app.Sound (plainCriteria app.baseUri)) :
    ∃ written, render app = .ok written ∧ ∃ again, again.sourceless = app.sourceless ∧
      Always (readDescriptionText app.baseUri false written) again := by
  obtain ⟨children, hrender, hsound, again, hsame, hread⟩ :=
    application_rereads hbase h.toPartsSound
  obtain ⟨index, hindex⟩ := ofApplication_of_sourceless hsame h.index
  refine ⟨(Outline.root children).document, by rw [render, hrender]; rfl, again, hsame, ?_⟩
  unfold readDescriptionText
  rw [readText_document hsound]
  have hmarks : (Xml.Node.element rootTag ((Outline.root children).content 0)).withoutMarks =
      .element rootTag ((Outline.root children).content 0) := by
    rw [Xml.Node.withoutMarks, withoutMarks_content]
  simp only [hmarks]
  exact hread.bind ((always_lift hindex).bind (always_pure again))

/-- A description that was read leniently is written as a document which is read as the same
description and then written as the same document. -/
theorem render_reads_back {base text : String} {app : Application} (hbase : HttpBase base)
    (hread : Yields (readDescriptionText base false text) app)
    (hdocs : ∀ d ∈ app.allDocs, d.HoldsText) : ∃ written, render app = .ok written ∧ ∃ again,
      Always (readDescriptionText base false written) again ∧ again.same app = true ∧
        render again = .ok written := by
  have hsound : app.Sound (plainCriteria base) := by
    unfold readDescriptionText at hread
    split at hread
    · rename_i root hroot
      exact readDescription_sound (plainCriteria_fits base) hread
        (Xml.holds_readText hroot).withoutMarks hdocs
    · exact absurd hread not_yields_throw
  obtain rfl : app.baseUri = base := hsound.base
  obtain ⟨written, hwritten, again, hsame, hagain⟩ := always_readDescriptionText hbase hsound
  refine ⟨written, hwritten, again, hagain, by simp [Application.same, hsame], ?_⟩
  rw [← render_sourceless, hsame, render_sourceless]
  exact hwritten

/-- A description with documentation that needs escaping and a reference. -/
def describedType : String :=
  "<application><doc>a&lt;b</doc><resource_type id='t'/><resources><resource type='#t'/></resources></application>"

theorem httpBase_short : HttpBase "http://h/d" where
  parts :=
    ⟨⟨"http".toList, "h".toList, "/d".toList, [], [], []⟩, by decide +kernel, Or.inl rfl, by decide,
    by decide +kernel, rfl⟩
  noBlank := List.all_iff_forall_prop.1 (by decide)
  text := by
    have hchars : ∀ c ∈ "http://h/d".toList, Xml.isChar c = true := List.all_eq_true.1 (by decide)
    exact hchars

theorem render_reads_back_describedType :
    ∃ app, Yields (readDescriptionText "http://h/d" false describedType) app ∧
      app.allDocs = [⟨none, none, "a&lt;b", none⟩] ∧ (∀ d ∈ app.allDocs, d.HoldsText) ∧
      ∃ written, render app = .ok written ∧ ∃ again,
        Always (readDescriptionText "http://h/d" false written) again ∧ again.same app = true ∧
          render again = .ok written := by
  have hread : (Id.run
      ((readDescriptionText "http://h/d" false describedType).run.run [])).1.toOption.map
      (·.allDocs) = some [⟨none, none, "a&lt;b", none⟩] := by
    -- the characters of a literal are known without decoding its bytes
    have hchars : describedType.toList = _ := String.toList_ofList
    rw [readDescriptionText, Xml.readText, hchars]
    decide +kernel
  rcases hrun : Id.run
    ((readDescriptionText "http://h/d" false describedType).run.run []) with ⟨_ | app, t⟩
  · rw [hrun] at hread
    cases hread
  · rw [hrun] at hread
    have hdocs : app.allDocs = [⟨none, none, "a&lt;b", none⟩] := Option.some.inj hread
    have hyields : Yields (readDescriptionText "http://h/d" false describedType) app :=
      ⟨[], t, hrun⟩
    have hholds : ∀ d ∈ app.allDocs, d.HoldsText := by
      intro d hd
      rw [hdocs, List.mem_singleton] at hd
      refine ⟨⟨⟨.plain "doc", []⟩, [.text "a<b"]⟩, by decide, ?_, hd.trans (by decide)⟩
      intro n hn
      exact ⟨"a<b", List.mem_singleton.1 hn, by decide⟩
    exact ⟨app, hyields, hdocs, hholds, render_reads_back httpBase_short hyields hholds⟩

end Wadl
