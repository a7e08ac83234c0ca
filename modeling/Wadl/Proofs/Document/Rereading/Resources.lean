import Wadl.Proofs.Document.Rereading.Methods

/-!
# Resources that are read again

Resources are read as they are written, with all below them (`resource_rereads`), by induction on
what makes them sound. The placeholders of a path are declared again, since what declares them does
not depend on sources.
-/

namespace Wadl

open Reader Outline

/-! ## Among other children -/

section Among

variable {pos : Position} {inherited : List String}

theorem always_readResources_skip {n : Xml.Node} {content : List Xml.Node} {rs : List Resource}
    (hn : Always (readIfResource pos inherited n) none)
    (h : Always (readResources pos inherited content) rs) :
    Always (readResources pos inherited (n :: content)) rs := by
  unfold readResources
  exact hn.bind (h.bind (always_pure rs))

theorem always_readIfResource_text (s : String) :
    Always (readIfResource pos inherited (.text s)) none := by
  unfold readIfResource
  exact always_pure none

theorem isResourceTag_iff {o : Outline} (h : o.Sound) :
    isResourceTag o.tag = true ↔ o.kind = .resource := by
  have hlabel : o.tag.name.label = o.kind.word := h.label
  have hspace : o.tag.name.isWadl = true := by simp [tag, Xml.Name.isWadl]
  unfold isResourceTag
  rw [hlabel, hspace, Bool.and_true, decide_eq_true_iff]
  constructor
  · intro hword
    have hkind := congrArg ElementKind.ofWord? hword
    rw [ElementKind.ofWord?_word, ElementKind.ofWord?_word] at hkind
    exact Option.some.inj hkind
  · intro hkind
    rw [hkind]

/-- How the resources below elements that declare the template params `inherited` are written and
read. -/
def resourceCodec (base : String) (inherited : List String) : Codec Resource :=
  ⟨.resource, Render.resource base,
    fun pos e => readResource pos inherited e fun inside declared =>
      readResources inside declared e.content,
    Resource.sourceless⟩

/-- Resources on lines of their own are read one by one. -/
theorem always_readResources_between {base : String} {depth : Nat} {rs : List Outline}
    {again : List Resource} (hrs : AllOf .resource rs) (hsound : ∀ o ∈ rs, o.Sound)
    (hread : List.Forall₂
      (fun o y => Always ((resourceCodec base inherited).read pos (asElement depth o)) y) rs
      again) {tail : List Xml.Node} (htail : tail = [] ∨ ∃ s, tail = [.text s]) :
    Always (readResources pos inherited (between depth rs ++ tail)) again := by
  induction hread with
  | nil =>
    rcases htail with rfl | ⟨s, rfl⟩
    · unfold readResources
      exact always_pure []
    · refine always_readResources_skip (always_readIfResource_text s) ?_
      unfold readResources
      exact always_pure []
  | @cons o y rs again hfirst _ ih =>
    obtain ⟨hkind, hkinds⟩ := List.forall_mem_cons.1 hrs
    obtain ⟨ho, hos⟩ := List.forall_mem_cons.1 hsound
    have hrest := ih hkinds hos
    rw [between, List.cons_append, List.cons_append]
    refine always_readResources_skip (always_readIfResource_text _) ?_
    unfold readResources readIfResource
    rw [if_pos ((isResourceTag_iff ho).2 hkind)]
    exact hfirst.map.bind (hrest.bind (always_pure _))

/-- Other outlines before resources are passed over. -/
theorem always_readResources_after {depth : Nat} {os : List Outline} {more : List Xml.Node}
    {rs : List Resource} (hos : ∀ o ∈ os, o.Sound ∧ o.kind ≠ .resource)
    (hmore : Always (readResources pos inherited more) rs) :
    Always (readResources pos inherited (between depth os ++ more)) rs := by
  induction os with
  | nil => exact hmore
  | cons o os ih =>
    obtain ⟨⟨ho, hkind⟩, hrest⟩ := List.forall_mem_cons.1 hos
    have htag : Always (readIfResource pos inherited (.element o.tag (o.content depth))) none := by
      unfold readIfResource
      rw [if_neg fun htag => hkind ((isResourceTag_iff ho).1 htag)]
      exact always_pure none
    rw [between, List.cons_append, List.cons_append]
    exact always_readResources_skip (always_readIfResource_text _)
      (always_readResources_skip htag (ih hrest))

/-- The resources that are written in an element, after other outlines, are those that are read in
it. -/
theorem always_readResources {base : String} {k : ElementKind}
    {attributes : List (String × Option String)} {os rs : List Outline}
    {again : List Resource} {depth : Nat} (hos : ∀ o ∈ os, o.Sound ∧ o.kind ≠ .resource)
    (hrs : AllOf .resource rs) (hsound : ∀ o ∈ rs, o.Sound) (hread : List.Forall₂
      (fun o y => Always ((resourceCodec base inherited).read pos (asElement (depth + 1) o)) y) rs
        again) :
    Always (readResources pos inherited ((Render.element k attributes (os ++ rs)).content depth))
      again := by
  refine content_element (fun content => Always (readResources pos inherited content) again) k.word
    (present attributes) fun tail htail => ?_
  rw [between_append, List.append_assoc]
  exact always_readResources_after hos (always_readResources_between hrs hsound hread htail)

end Among

theorem resourceList_eq_mapM (base : String) (rs : List Resource) :
    Render.resourceList base rs = rs.mapM (Render.resource base) := by
  induction rs with
  | nil => rfl
  | cons r rs ih => rw [Render.resourceList, List.mapM_cons, ih]

theorem queryType_getD (t : String) : (Render.queryType t).getD formMediaType = t := by
  unfold Render.queryType
  split
  · rename_i h
    exact h.symm
  · rfl

theorem isText_queryType {t : String} (h : Xml.IsText t) :
    ∀ s, Render.queryType t = some s → Xml.IsText s := by
  intro s hs
  unfold Render.queryType at hs
  split at hs
  · cases hs
  · rw [← Option.some.inj hs]
    exact h

/-! ## Resources -/

section Parts

variable {base : String} (hbase : HttpBase base)

include hbase

/-- The types of a resource are written as words of one attribute. -/
theorem types_reread {types : List Reference}
    (h : ∀ t ∈ types, t.Sound (plainCriteria base).words .resourceType) :
    ∃ hrefs, types.mapM (·.written base) = .ok hrefs ∧ (∀ w ∈ hrefs, IsWord w ∧ Xml.IsText w) ∧
      ∀ pos, pos.base = base → ∃ again,
        again.map Reference.sourceless = types.map Reference.sourceless ∧
        Always (hrefs.mapM (reference pos .resourceType)) again := by
  induction types with
  | nil =>
    refine ⟨[], rfl, ?_, fun pos _ => ⟨[], rfl, always_pure []⟩⟩
    intro w hw
    cases hw
  | cons t types ih =>
    obtain ⟨ht, htypes⟩ := List.forall_mem_cons.1 h
    obtain ⟨w, hwritten, hjoin, hword, htext⟩ := ht.written_word hbase fun s hs => hs
    have hwritten : t.written base = .ok w := hwritten
    obtain ⟨hrefs, hwrite, hwords, hread⟩ := ih htypes
    refine ⟨w :: hrefs, ?_, List.forall_mem_cons.2 ⟨⟨hword, htext⟩, hwords⟩, fun pos hpos => ?_⟩
    · rw [List.mapM_cons, hwritten, hwrite]
      rfl
    · rw [← hpos] at hjoin
      obtain ⟨t', hsame, hfirst⟩ := always_reference ht.1 hjoin
      obtain ⟨again, hsames, hrest⟩ := hread pos hpos
      refine ⟨t' :: again, ?_, ?_⟩
      · rw [List.map_cons, List.map_cons, hsame, hsames]
      · rw [List.mapM_cons]
        exact hfirst.bind (hrest.bind (always_pure _))

/-- What resources and their types hold is written, and is read again. -/
theorem holder_rereads {k : ElementKind} (hk : k.children = [.doc, .param, .method, .resource])
    {inherited : List String} {params : List ParamItem} {methods : List MethodItem}
    {resources : List Resource} {docs : List Doc}
    (hparams : ParamsSound (plainCriteria base) k params)
    (hmethods : MethodsSound (plainCriteria base) methods) (hdocs : ∀ d ∈ docs, d.Plain)
    (hresources : (resourceCodec base inherited).RereadsAll base resources) :
    ∃ ps ms rs, params.mapM (Render.param base) = .ok ps ∧
      methods.mapM (Render.method base) = .ok ms ∧
      Render.resourceList base resources = .ok rs ∧ Fit k (docs.map Render.doc ++ ps ++ ms ++ rs) ∧
      ∀ inside depth, Lenient base inside → ∃ params' methods' resources',
        params'.map ParamItem.sourceless = params.map ParamItem.sourceless ∧
        methods'.map MethodItem.sourceless = methods.map MethodItem.sourceless ∧
        sourcelessList resources' = sourcelessList resources ∧
        Always (readParams inside k (asItems (depth + 1) (docs.map Render.doc ++ ps ++ ms ++ rs)))
          params' ∧
        Always (readMethods inside (asItems (depth + 1) (docs.map Render.doc ++ ps ++ ms ++ rs)))
          methods' ∧
        (∀ attributes, Always (readResources inside inherited ((Render.element k attributes
          (docs.map Render.doc ++ ps ++ ms ++ rs)).content depth)) resources') ∧
        readDocs (asItems (depth + 1) (docs.map Render.doc ++ ps ++ ms ++ rs)) = docs := by
  obtain ⟨ps, hwriteParams, hps, hparamSounds, hparamRead⟩ := params_reread hbase hparams
  obtain ⟨ms, hwriteMethods, hms, hmethodSounds, hmethodRead⟩ := methods_reread hbase hmethods
  obtain ⟨rs, hwriteResources, hrs, hresourceSounds, hresourceRead⟩ := hresources
  have hps : AllOf .param ps := hps
  have hms : AllOf .method ms := hms
  have hrs : AllOf .resource rs := hrs
  have hbefore : Fit k (docs.map Render.doc ++ ps ++ ms) :=
    ((fit_docs hdocs (by simp [hk])).append (hps.fit hparamSounds (by simp [hk]))).append
      (hms.fit hmethodSounds (by simp [hk]))
  have hothers : ∀ o ∈ docs.map Render.doc ++ ps ++ ms, o.Sound ∧ o.kind ≠ .resource := by
    intro o ho
    refine ⟨(hbefore o ho).1, ?_⟩
    rcases List.mem_append.1 ho with ho | ho
    · rcases List.mem_append.1 ho with ho | ho
      · rw [allOf_docs hdocs o ho]
        decide
      · rw [hps o ho]
        decide
    · rw [hms o ho]
      decide
  refine ⟨ps, ms, rs, hwriteParams, hwriteMethods, ?_,
    hbefore.append (hrs.fit hresourceSounds (by simp [hk])), fun inside depth hpos => ?_⟩
  · rw [resourceList_eq_mapM]
    exact hwriteResources
  · obtain ⟨params', hparamSame, hparamReads⟩ := hparamRead inside (depth + 1) hpos
    obtain ⟨methods', hmethodSame, hmethodReads⟩ := hmethodRead inside (depth + 1) hpos
    obtain ⟨resources', hresourceSame, hresourceReads⟩ := hresourceRead inside (depth + 1) hpos
    have hkinds : ∀ l, ofKind l (asItems (depth + 1) (docs.map Render.doc ++ ps ++ ms ++ rs)) =
        (if .doc = l then (docs.map Render.doc).map (asElement (depth + 1)) else []) ++
          (if .param = l then ps.map (asElement (depth + 1)) else []) ++
          (if .method = l then ms.map (asElement (depth + 1)) else []) ++
          (if .resource = l then rs.map (asElement (depth + 1)) else []) := by
      intro l
      rw [ofKind_append, ofKind_append, ofKind_append,
        ofKind_allOf (allOf_docs hdocs), ofKind_allOf hps, ofKind_allOf hms, ofKind_allOf hrs]
    have hfoundParams := hkinds .param
    have hfoundMethods := hkinds .method
    simp only [reduceCtorEq, if_true, if_false, List.nil_append, List.append_nil]
      at hfoundParams hfoundMethods
    refine ⟨params', methods', resources', hparamSame, hmethodSame, ?_, ?_, ?_, ?_, ?_⟩
    · rw [sourcelessList_eq, sourcelessList_eq]
      exact hresourceSame
    · exact always_readParams hparams hfoundParams hparamSame hparamReads
    · exact always_readMethods hmethods hfoundMethods hmethodSame hmethodReads
    · exact fun attributes => always_readResources hothers hrs hresourceSounds hresourceReads
    · rw [readDocs, hkinds]
      simp only [reduceCtorEq, if_true, if_false, List.append_nil, map_readDoc hdocs]

/-- A resource is read again with all below it. -/
theorem resource_rereads {inherited : List String} {r : Resource}
    (h : r.Sound (plainCriteria base) inherited) :
    (resourceCodec base inherited).Rereads base r := by
  induction h with
  | @mk inherited r texts types params methods placeholders docs _ ih =>
    obtain ⟨hrefs, hwriteTypes, hwords, htypeRead⟩ := types_reread hbase types
    obtain ⟨ps, ms, rs, hwriteParams, hwriteMethods, hwriteResources, hfit, hread⟩ :=
      holder_rereads hbase rfl params methods docs (Codec.rereadsAll ih)
    have hnames : Named ([("id", r.id), ("path", r.path), ("type", Render.words hrefs),
        ("queryType", Render.queryType r.queryType)].map (·.1)) :=
      (by decide : Named ["id", "path", "type", "queryType"])
    have htexts : (plainCriteria base).Texts
        [r.id, r.path, Render.words hrefs, Render.queryType r.queryType] := by
      simp only [Criteria.texts_cons, Option.some.injEq, forall_eq'] at texts ⊢
      obtain ⟨hid, hpath, hquery, hnone⟩ := texts
      exact ⟨hid, hpath, isText_words fun w hw => (hwords w hw).2, isText_queryType hquery, hnone⟩
    obtain ⟨hsound, hkind⟩ := sound_element hnames htexts hfit
    refine ⟨_, ?_, hkind, hsound, fun pos depth hpos => ?_⟩
    · obtain ⟨id, path, types, query, params, methods, resources, docs⟩ := r
      show Render.resource base _ = _
      unfold Render.resource
      refine Result.bind_ok.2 ⟨hrefs, hwriteTypes, Result.bind_ok.2 ⟨ps, hwriteParams, ?_⟩⟩
      exact Result.bind_ok.2 ⟨ms, hwriteMethods, Result.bind_ok.2 ⟨rs, hwriteResources, rfl⟩⟩
    · have hinside :
          Lenient base (pos.enter (labelled "resource" (firstNonEmpty [r.id, r.path]))) :=
        hpos.enter _
      obtain ⟨types', htypeSame, hreadTypes⟩ := htypeRead _ hinside.base
      obtain ⟨params', methods', resources', hparamSame, hmethodSame, hresourceSame,
        hreadParams, hreadMethods, hreadResources, hdocs⟩ := hread _ depth hinside
      obtain ⟨e, he, hshows⟩ := exists_shows hnames hfit depth
      have hid : e.get? "id" = r.id := hshows.get? _ (by decide)
      have hpath : e.get? "path" = r.path := hshows.get? _ (by decide)
      have htype : wordsOf ((e.get? "type").getD "") = hrefs := by
        rw [hshows.get? _ (by decide)]
        show wordsOf ((Render.words hrefs).getD "") = hrefs
        rw [words_getD, wordsOf_intercalate fun w hw => (hwords w hw).1]
      have hquery : (e.get? "queryType").getD formMediaType = r.queryType := by
        rw [hshows.get? _ (by decide)]
        exact queryType_getD r.queryType
      have hnames' : templateNames params' = templateNames r.params := by
        rw [← templateNames_sourceless, hparamSame, templateNames_sourceless]
      have hplaceholders :
          undeclaredPlaceholder? (inherited ++ templateNames r.params) r.path params' methods' =
          none := by
        rw [← undeclaredPlaceholder?_sourceless, hparamSame, hmethodSame,
          undeclaredPlaceholder?_sourceless]
        exact placeholders
      refine ⟨⟨r.id, r.path, types', r.queryType, params', methods', resources', r.docs⟩, ?_, ?_⟩
      · obtain ⟨id, path, types, query, params, methods, resources, docs⟩ := r
        show Resource.mk _ _ _ _ _ _ _ _ = Resource.mk _ _ _ _ _ _ _ _
        rw [htypeSame, hparamSame, hmethodSame, hresourceSame]
      · rw [he]
        simp only [resourceCodec, readResource, hid, hpath, hquery, htype]
        refine (hshows.items _).bind (hreadParams.bind (hreadMethods.bind (hreadTypes.bind ?_)))
        rw [hnames', hshows.content]
        refine (hreadResources _).bind ((always_refuse hplaceholders _).bind ?_)
        exact always_pure_of_eq (by rw [hdocs])

/-- How resource types are written and read. -/
def resourceTypeCodec (base : String) : Codec ResourceType :=
  ⟨.resourceType, Render.resourceType base, readResourceType, ResourceType.sourceless⟩

theorem resourceType_rereads {t : ResourceType} (h : t.Sound (plainCriteria base)) :
    (resourceTypeCodec base).Rereads base t := by
  obtain ⟨ps, ms, rs, hwriteParams, hwriteMethods, hwriteResources, hfit, hread⟩ :=
    holder_rereads hbase rfl h.params h.methods h.docs
      (Codec.rereadsAll fun r hr => resource_rereads hbase (h.resources r hr))
  have hnames : Named
      ([("id", some t.id), ("queryType", Render.queryType t.queryType)].map (·.1)) :=
    (by decide : Named ["id", "queryType"])
  have htexts : (plainCriteria base).Texts [some t.id, Render.queryType t.queryType] := by
    have ht := h.texts
    simp only [Criteria.texts_cons, Option.some.injEq, forall_eq'] at ht ⊢
    obtain ⟨hid, hquery, hnone⟩ := ht
    exact ⟨hid, isText_queryType hquery, hnone⟩
  obtain ⟨hsound, hkind⟩ := sound_element hnames htexts hfit
  refine ⟨_, ?_, hkind, hsound, fun pos depth hpos => ?_⟩
  · refine Result.bind_ok.2 ⟨ps, hwriteParams, Result.bind_ok.2 ⟨ms, hwriteMethods, ?_⟩⟩
    exact Result.bind_ok.2 ⟨rs, hwriteResources, rfl⟩
  · have hinside : Lenient base (pos.enter (labelled "resource_type" t.id)) := hpos.enter _
    obtain ⟨params, methods, resources, hparamSame, hmethodSame, hresourceSame,
      hreadParams, hreadMethods, hreadResources, hdocs⟩ := hread _ depth hinside
    obtain ⟨e, he, hshows⟩ := exists_shows hnames hfit depth
    have hid : e.get? "id" = some t.id := hshows.get? _ (by decide)
    have hquery : (e.get? "queryType").getD formMediaType = t.queryType := by
      rw [hshows.get? _ (by decide)]
      exact queryType_getD t.queryType
    have hdeclared : templateNames params = templateNames t.params := by
      rw [← templateNames_sourceless, hparamSame, templateNames_sourceless]
    refine ⟨⟨t.id, t.queryType, params, methods, resources, t.docs⟩, ?_, ?_⟩
    · show ResourceType.mk _ _ _ _ _ _ = ResourceType.mk _ _ _ _ _ _
      rw [hparamSame, hmethodSame, hresourceSame]
    · rw [he]
      simp only [resourceTypeCodec, readResourceType, hquery]
      refine (always_required hid _).bind
        ((hshows.items _).bind (hreadParams.bind (hreadMethods.bind ?_)))
      rw [hdeclared, hshows.content]
      refine (hreadResources _).bind ?_
      exact always_pure_of_eq (by rw [hdocs])

/-- How groups of resources are written and read. -/
def groupCodec (base : String) : Codec ResourceGroup :=
  ⟨.resources, Render.group base, readGroup, ResourceGroup.sourceless⟩

theorem group_rereads {g : ResourceGroup} (h : g.Sound (plainCriteria base)) :
    (groupCodec base).Rereads base g := by
  obtain ⟨rs, hwrite, hrs, hsounds, hread⟩ :=
    Codec.rereadsAll fun r hr => resource_rereads hbase (h.resources r hr)
  have hrs : AllOf .resource rs := hrs
  have hnames : Named ([("base", g.base)].map (·.1)) := (by decide : Named ["base"])
  have hfit : Fit .resources rs := hrs.fit hsounds (by decide)
  have hwrites : Render.resourceList base g.resources = .ok rs := by
    rw [resourceList_eq_mapM]
    exact hwrite
  obtain ⟨hsound, hkind⟩ := sound_element hnames h.texts hfit
  refine ⟨_, Result.bind_ok.2 ⟨rs, hwrites, rfl⟩, hkind, hsound, fun pos depth hpos => ?_⟩
  obtain ⟨resources, hsame, hreads⟩ := hread (pos.enter "resources") (depth + 1) (hpos.enter _)
  obtain ⟨e, he, hshows⟩ := exists_shows hnames hfit depth
  have hgroup : e.get? "base" = g.base := hshows.get? _ (by decide)
  have hnone : ∀ o : Outline, o ∈ [] → o.Sound ∧ o.kind ≠ .resource := by simp
  have hresources : Always (readResources (pos.enter "resources") [] e.content) resources := by
    rw [hshows.content]
    exact always_readResources hnone hrs hsounds hreads
  refine ⟨⟨g.base, resources⟩, ?_, ?_⟩
  · show ResourceGroup.mk _ _ = ResourceGroup.mk _ _
    rw [sourcelessList_eq, sourcelessList_eq]
    exact congrArg _ hsame
  · rw [he]
    simp only [groupCodec, readGroup, hgroup]
    exact (hshows.items _).bind (hresources.bind (always_pure _))

end Parts

end Wadl
