import Wadl.Proofs.Document.Elements
import Wadl.Proofs.Document.Reading
import Wadl.Proofs.Document.References
import Wadl.Proofs.Document.Sources

/-!
# Params and representations that are read again

A sound part whose documentation is plain text (`Doc.Plain`) is written as an outline that is read
as the same part, sources apart: `param_rereads` and `representation_rereads`. The check of names
that succeeded once succeeds again, since names do not depend on sources.
-/

namespace Wadl

open Reader Outline

/-! ## Documentation -/

/-- Documentation that is text only. -/
structure Doc.Plain (d : Doc) : Prop where
  texts : ∀ s, some s ∈ [d.title, d.lang] → Xml.IsText s
  space : d.xmlns = none
  content : ∃ t, Xml.IsText t ∧ '\r' ∉ t.toList ∧ d.content = Xml.escapeText t

/-- Descriptions whose documentation is plain and whose texts are those that documents may hold. -/
def plainCriteria (base : String) : Criteria := ⟨base, Xml.IsText, Doc.Plain⟩

theorem childTags_textNodes (t : String) : Xml.childTags (Xml.textNodes t) = [] := by
  unfold Xml.textNodes
  split <;> rfl

theorem markupText_textNodes (t : String) :
    markupText true (Xml.textNodes t) = Xml.escapeText t := by
  unfold Xml.textNodes
  by_cases hempty : t = ""
  · rw [if_pos hempty, hempty, Xml.escapeText_empty]
    rfl
  · rw [if_neg hempty]
    exact String.append_empty

/-- Documentation is written, and read as it was. -/
theorem doc_rereads {d : Doc} (h : d.Plain) :
    (Render.doc d).Sound ∧ (Render.doc d).kind = .doc ∧
      ∀ depth, readDoc ((Render.doc d).asElement depth) = d := by
  obtain ⟨title, lang, content, xmlns⟩ := d
  obtain ⟨htexts, hspace, t, ht, hreturn, hcontent⟩ := h
  subst hspace hcontent
  have hnames : Named ([("title", title), ("xml:lang", lang)].map (·.1)) :=
    (by decide : Named ["title", "xml:lang"])
  have houtline : Render.doc ⟨title, lang, Xml.escapeText t, none⟩ =
      .verbatim ElementKind.doc.word (present [("title", title), ("xml:lang", lang)])
        (Xml.escapeText t) := rfl
  rw [houtline]
  refine ⟨.doc (soundAttributes_present hnames htexts) ht hreturn,
    kind_of_label rfl, fun depth => ?_⟩
  have htag : (Outline.verbatim ElementKind.doc.word
      (present [("title", title), ("xml:lang", lang)]) (Xml.escapeText t)).asElement depth =
        ⟨⟨⟨some wadlSpace, ElementKind.doc.word⟩,
          named (present [("title", title), ("xml:lang", lang)])⟩, Xml.textNodes t⟩ := by
    rw [asElement, content, unescaped_escapeText ht]
    rfl
  have htitle := attribute?_present hnames.1 ⟨some wadlSpace, ElementKind.doc.word⟩ "title"
  have hlang := attribute?_present hnames.1 ⟨some wadlSpace, ElementKind.doc.word⟩ "xml:lang"
  rw [htag]
  unfold readDoc
  rw [markupText_textNodes, childTags_textNodes]
  exact congrArg₂ (fun a b => Doc.mk a b _ none) htitle hlang

section Docs

variable {docs : List Doc} (h : ∀ d ∈ docs, d.Plain)

include h

theorem allOf_docs : AllOf .doc (docs.map Render.doc) := by
  intro o ho
  obtain ⟨d, hd, rfl⟩ := List.mem_map.1 ho
  exact (doc_rereads (h d hd)).2.1

theorem fit_docs {parent : ElementKind} (hparent : ElementKind.doc ∈ parent.children) :
    Fit parent (docs.map Render.doc) := by
  refine (allOf_docs h).fit (fun o ho => ?_) hparent
  obtain ⟨d, hd, rfl⟩ := List.mem_map.1 ho
  exact (doc_rereads (h d hd)).1

/-- The documentation of an element is read as it was. -/
theorem map_readDoc (depth : Nat) :
    ((docs.map Render.doc).map (asElement depth)).map readDoc = docs := by
  rw [List.map_map, List.map_map]
  have hread : ∀ d ∈ docs, ((readDoc ∘ asElement depth) ∘ Render.doc) d = id d :=
    fun d hd => (doc_rereads (h d hd)).2.2 depth
  rw [List.map_congr_left hread, List.map_id]

/-- An element with documentation only. -/
theorem readDocs_asItems (depth : Nat) : readDocs (asItems depth (docs.map Render.doc)) = docs := by
  rw [readDocs, ofKind_allOf (allOf_docs h), if_pos rfl, map_readDoc h]

end Docs

/-! ## Params -/

theorem isText_flag (b : Bool) : ∀ s, Render.flag b = some s → Xml.IsText s := by
  have htrue : ∀ c ∈ "true".toList, Xml.isChar c = true := List.all_eq_true.1 (by decide)
  intro s hs
  cases b with
  | false => cases hs
  | true =>
    obtain rfl := Option.some.inj hs
    exact htrue

theorem isText_style (style : ParamStyle) : ∀ s, some style.word = some s → Xml.IsText s := by
  have hword : ∀ c ∈ style.word.toList, Xml.isChar c = true := by
    cases style <;> exact List.all_eq_true.1 (by decide)
  intro s hs
  obtain rfl := Option.some.inj hs
  exact hword

section Parts

variable {base : String} (hbase : HttpBase base)

theorem option_rereads {o : ParamOption} (h : o.Sound (plainCriteria base)) :
    ((Render.option o).Sound ∧ (Render.option o).kind = .option) ∧
      ∀ pos depth, Always (readOption pos ((Render.option o).asElement depth)) o := by
  have hnames : Named ([("value", some o.value), ("mediaType", o.mediaType)].map (·.1)) :=
    (by decide : Named ["value", "mediaType"])
  have hfit : Fit .option (o.docs.map Render.doc) := fit_docs h.docs (by decide)
  refine ⟨sound_element hnames h.texts hfit, fun pos depth => ?_⟩
  have hvalue : ((Render.option o).asElement depth).get? "value" = some o.value :=
    get?_element hnames.1 _ (by decide)
  have hmediaType : ((Render.option o).asElement depth).get? "mediaType" = o.mediaType :=
    get?_element hnames.1 _ (by decide)
  have hdocs := readDocs_asItems h.docs (depth + 1)
  unfold readOption
  refine (always_required hvalue _).bind ((always_items hfit depth).bind ?_)
  exact always_pure_of_eq (by rw [hmediaType, hdocs])

/-- The options of a param are written as such, and are read again. -/
theorem options_reread {options : List ParamOption}
    (h : ∀ o ∈ options, o.Sound (plainCriteria base)) :
    AllOf .option (options.map Render.option) ∧ (∀ o ∈ options.map Render.option, o.Sound) ∧
      ∀ pos depth,
        Always (((options.map Render.option).map (asElement depth)).mapM (readOption pos))
          options := by
  refine ⟨?_, ?_, fun pos depth => ?_⟩
  · intro o ho
    obtain ⟨x, hx, rfl⟩ := List.mem_map.1 ho
    exact (option_rereads (h x hx)).1.2
  · intro o ho
    obtain ⟨x, hx, rfl⟩ := List.mem_map.1 ho
    exact (option_rereads (h x hx)).1.1
  · refine always_mapM_asElement
      (List.forall₂_map_left_iff.2 (List.forall₂_same.2 fun o ho => ?_))
    exact (option_rereads (h o ho)).2 pos depth

/-- A reference is read from what is written. -/
theorem always_reference {kind : DefinitionKind} {r : Reference} {w : String} {pos : Position}
    (hkind : r.kind = kind) (hjoin : joinUri pos.base w = .ok r.href) :
    ∃ r', r'.sourceless = r.sourceless ∧ Always (reference pos kind w) r' := by
  refine ⟨⟨kind, r.href, "/".intercalate pos.path⟩, ?_, ?_⟩
  · rw [← hkind]
    rfl
  · unfold reference
    rw [hjoin]
    exact always_pure _

include hbase

theorem target_rereads {target : Option Reference}
    (h : ∀ r, target = some r → r.Sound (plainCriteria base) .resourceType) :
    ∃ href, target.mapM (·.written base) = .ok href ∧ (∀ s, href = some s → Xml.IsText s) ∧
      ∀ pos, pos.base = base → ∃ again,
        again.map Reference.sourceless = target.map Reference.sourceless ∧
        Always (readTarget pos href) again := by
  cases target with
  | none =>
    refine ⟨none, rfl, ?_, fun pos _ => ⟨none, rfl, always_pure none⟩⟩
    rintro s ⟨⟩
  | some r =>
    have hr := h r rfl
    obtain ⟨w, hwritten, hjoin, hne, htext⟩ := hr.written hbase fun s hs => hs
    refine ⟨some w, ?_, ?_, fun pos hpos => ?_⟩
    · have hmap : (some r).mapM (·.written base) = some <$> r.written base := rfl
      rw [hmap]
      exact Result.map_ok.2 ⟨w, hwritten, rfl⟩
    · rintro s ⟨⟩
      exact htext
    · have hjoin : joinUri pos.base w = .ok r.href := by rw [hpos]; exact hjoin
      obtain ⟨r', hsame, hread⟩ := always_reference hr.1 hjoin
      refine ⟨some r', congrArg some hsame, ?_⟩
      unfold readTarget
      simp only [String.isEmpty_iff, hne, if_false]
      exact hread.map

/-- How links are written and read. -/
def linkCodec (base : String) : Codec Link := ⟨.link, Render.link base, readLink, Link.sourceless⟩

theorem link_rereads {l : Link} (h : l.Sound (plainCriteria base)) :
    (linkCodec base).Rereads base l := by
  obtain ⟨href, hwrite, htext, hread⟩ := target_rereads hbase h.target
  have hnames : Named ([("resource_type", href), ("rel", l.rel), ("rev", l.rev)].map (·.1)) :=
    (by decide : Named ["resource_type", "rel", "rev"])
  have htexts : (plainCriteria base).Texts [href, l.rel, l.rev] :=
    Criteria.texts_cons.2 ⟨htext, h.texts⟩
  have hfit : Fit .link (l.docs.map Render.doc) := fit_docs h.docs (by decide)
  obtain ⟨hsound, hkind⟩ := sound_element hnames htexts hfit
  refine ⟨_, ?_, hkind, hsound, fun pos depth hpos => ?_⟩
  · exact Result.bind_ok.2 ⟨href, hwrite, rfl⟩
  · obtain ⟨target, hsame, htarget⟩ := hread (pos.enter "link") (hpos.enter _).base
    refine ⟨⟨target, l.rel, l.rev, l.docs⟩, ?_, ?_⟩
    · show Link.mk _ _ _ _ = Link.mk _ _ _ _
      rw [hsame]
    · have hget := @get?_element .link _ (l.docs.map Render.doc) depth hnames.1
      have hhref := hget "resource_type" (by decide)
      have hrel := hget "rel" (by decide)
      have hrev := hget "rev" (by decide)
      have hdocs := readDocs_asItems h.docs (depth + 1)
      show Always (readLink pos _) _
      unfold readLink
      simp only [hhref, hrel, hrev]
      refine Always.bind htarget ((always_items hfit depth).bind ?_)
      exact always_pure_of_eq (by rw [hdocs]; rfl)

/-- How the params of an element of kind `location` are written and read. -/
def paramCodec (base : String) (location : ElementKind) : Codec ParamItem :=
  ⟨.param, Render.param base, fun pos => readParam pos location, ParamItem.sourceless⟩

/-- A param that stands here is written, and is read again inside the position of its element. -/
theorem paramBody_rereads {p : Param} (h : p.Sound (plainCriteria base)) :
    ∃ o, Render.param base (.inline p) = .ok o ∧ o.kind = .param ∧ o.Sound ∧ ∀ depth,
      (o.asElement depth).get? "href" = none ∧ (o.asElement depth).get? "id" = p.id ∧
        ∀ inside location, Lenient base inside → ∃ q, Param.sourceless q = p.sourceless ∧
          Always (readParamBody inside location (o.asElement depth)) q := by
  obtain ⟨links, hwrite, hlinks, hsounds, hread⟩ :=
    Codec.rereadsAll fun l hl => link_rereads hbase (h.links l hl)
  have hlinks : AllOf .link links := hlinks
  have hnames : Named ([("name", some p.name), ("style", some p.style.word), ("id", p.id),
      ("type", some p.type), ("default", p.default), ("fixed", p.fixed), ("path", p.path),
      ("required", Render.flag p.required), ("repeating", Render.flag p.repeating)].map (·.1)) :=
    (by decide : Named ["name", "style", "id", "type", "default", "fixed", "path",
      "required", "repeating"])
  have htexts : (plainCriteria base).Texts
      [some p.name, some p.style.word, p.id, some p.type, p.default,
      p.fixed, p.path, Render.flag p.required, Render.flag p.repeating] := by
    have hp := h.texts
    simp only [Criteria.texts_cons] at hp ⊢
    obtain ⟨hname, hid, htype, hdefault, hfixed, hpath, hnone⟩ := hp
    exact ⟨hname, isText_style p.style, hid, htype, hdefault, hfixed, hpath, isText_flag p.required,
      isText_flag p.repeating, hnone⟩
  obtain ⟨hoptions, hoptionSounds, hoptionReads⟩ := options_reread h.options
  have hfit : Fit .param (p.docs.map Render.doc ++ p.options.map Render.option ++ links) :=
    ((fit_docs h.docs (by decide)).append (hoptions.fit hoptionSounds (by decide))).append
      (hlinks.fit hsounds (by decide))
  obtain ⟨hsound, hkind⟩ := sound_element hnames htexts hfit
  refine ⟨_, Result.bind_ok.2 ⟨links, hwrite, rfl⟩, hkind, hsound, fun depth => ?_⟩
  have hget :=
    @get?_element .param _ (p.docs.map Render.doc ++ p.options.map Render.option ++ links) depth
      hnames.1
  refine ⟨hget "href" (by decide), hget "id" (by decide), fun inside location hpos => ?_⟩
  obtain ⟨again, hsame, hlinkReads⟩ := hread inside (depth + 1) hpos
  have hsame : again.map Link.sourceless = p.links.map Link.sourceless := hsame
  refine ⟨{ p with links := again }, ?_, ?_⟩
  · simp only [Param.sourceless, hsame]
  · unfold readParamBody
    refine (always_required (hget "name" (by decide)) _).bind ?_
    refine (always_readStyle (hget "style" (by decide)) hpos.strict location).bind ?_
    refine (always_items hfit depth).bind ?_
    simp only [readDocs, ofKind_append, ofKind_allOf (allOf_docs h.docs), ofKind_allOf hoptions,
      ofKind_allOf hlinks, reduceCtorEq, if_true, if_false, List.append_nil, List.nil_append,
      map_readDoc h.docs]
    refine (hoptionReads inside (depth + 1)).bind ?_
    refine (always_refuse (nodup_iff_firstDoubled.2 h.values) _).bind ?_
    refine (always_flag (hget "required" (by decide))).bind ?_
    refine (always_flag (hget "repeating" (by decide))).bind ?_
    refine (always_mapM_asElement hlinkReads).bind ?_
    refine always_pure_of_eq ?_
    simp only [hget "id" (by decide), hget "type" (by decide), hget "default" (by decide),
      hget "fixed" (by decide), hget "path" (by decide)]
    rfl

/-- An element that is a reference is written, and gives the reference and the identifier again. -/
theorem ref_rereads (k : ElementKind) {kind : DefinitionKind} {r : Reference} {id : Option String}
    (hr : r.Sound (plainCriteria base) kind) (hid : (plainCriteria base).Texts [id]) :
    ∃ w, r.written base = .ok w ∧ joinUri base w = .ok r.href ∧
      (Render.element k [("id", id), ("href", some w)] []).Sound ∧
      (Render.element k [("id", id), ("href", some w)] []).kind = k ∧
      ∀ depth, ((Render.element k [("id", id), ("href", some w)] []).asElement depth).get?
        "id" = id ∧ ((Render.element k [("id", id), ("href", some w)] []).asElement depth).get?
          "href" = some w := by
  obtain ⟨w, hwritten, hjoin, -, hw⟩ := hr.written hbase fun s hs => hs
  have hnames : Named ([("id", id), ("href", some w)].map (·.1)) :=
    (by decide : Named ["id", "href"])
  have htexts : (plainCriteria base).Texts [id, some w] := by
    simp only [Criteria.texts_cons, Option.some.injEq, forall_eq'] at hid ⊢
    exact ⟨hid.1, hw, hid.2⟩
  have hfit : Fit k [] := by
    intro o ho
    cases ho
  obtain ⟨hsound, hkind⟩ := sound_element hnames htexts hfit
  refine ⟨w, hwritten, hjoin, hsound, hkind, fun depth => ⟨?_, ?_⟩⟩
  · exact get?_element hnames.1 _ (by decide)
  · exact get?_element hnames.1 _ (by decide)

omit hbase in
theorem aliasId_eq {e : Element} {location : ElementKind} {id : Option String}
    (hid : e.get? "id" = id) (hnone : location ≠ .application → id = none) :
    aliasId e location = id := by
  unfold aliasId
  split
  · exact hid
  · rename_i hlocation
    exact (hnone hlocation).symm

theorem param_rereads {location : ElementKind} {item : ParamItem}
    (h : item.Sound (plainCriteria base) location) :
    (paramCodec base location).Rereads base item := by
  cases item with
  | inline p =>
    obtain ⟨o, hwrite, hkind, hsound, hread⟩ := paramBody_rereads hbase (h.inline p rfl)
    refine ⟨o, hwrite, hkind, hsound, fun pos depth hpos => ?_⟩
    obtain ⟨hhref, hid, hbody⟩ := hread depth
    obtain ⟨q, hsame, hq⟩ := hbody _ location (hpos.enter _)
    refine ⟨.inline q, congrArg ParamItem.inline hsame, ?_⟩
    show Always (readParam pos location _) _
    unfold readParam
    refine (always_requireId (fun hlocation => ?_) _).bind ?_
    · rw [hid]
      exact h.id hlocation
    · split
      · rename_i href heq
        rw [hhref] at heq
        cases heq
      · exact hq.bind (always_pure _)
  | ref r id =>
    obtain ⟨hr, hidText, hnone⟩ := h.ref r id rfl
    obtain ⟨w, hwritten, hjoin, hsound, hkind, hget⟩ := ref_rereads hbase .param hr hidText
    refine ⟨_, Result.bind_ok.2 ⟨w, hwritten, rfl⟩, hkind, hsound, fun pos depth hpos => ?_⟩
    obtain ⟨hid, hhref⟩ := hget depth
    obtain ⟨r', hsame, hread⟩ := always_reference hr.1 ((hpos.enter _).base.symm ▸ hjoin)
    refine ⟨.ref r' id, congrArg (ParamItem.ref · id) hsame, ?_⟩
    show Always (readParam pos location _) _
    unfold readParam
    refine (always_requireId (fun hlocation => ?_) _).bind ?_
    · rw [hid]
      exact h.id hlocation
    · split
      · rename_i href heq
        rw [hhref] at heq
        obtain rfl := Option.some.inj heq
        refine hread.bind ?_
        rw [aliasId_eq hid hnone]
        exact always_pure _
      · rename_i heq
        rw [hhref] at heq
        cases heq

theorem params_reread {location : ElementKind} {params : List ParamItem}
    (h : ParamsSound (plainCriteria base) location params) :
    (paramCodec base location).RereadsAll base params :=
  Codec.rereadsAll fun p hp => param_rereads hbase (h.items p hp)

omit hbase in
/-- Params with different names are read again as a whole. -/
theorem always_readParams {location : ElementKind} {params again : List ParamItem} {pos : Position}
    {found : List (ElementKind × Element)} {os : List Outline} {depth : Nat}
    (h : ParamsSound (plainCriteria base) location params)
    (hfound : ofKind .param found = os.map (asElement depth))
    (hsame : again.map ParamItem.sourceless = params.map ParamItem.sourceless)
    (hread : List.Forall₂ (fun o y => Always (readParam pos location (asElement depth o)) y) os
      again) :
    Always (readParams pos location found) again := by
  have hnames : (paramNames again).Nodup := by
    rw [← paramNames_sourceless, hsame, paramNames_sourceless]
    exact h.names
  unfold readParams
  rw [hfound]
  refine (always_mapM_asElement hread).bind ?_
  exact (always_refuse (nodup_iff_firstRepeated.2 hnames) _).bind (always_pure again)

/-! ## Representations -/

/-- How the representations of an element of kind `location` are written and read. -/
def representationCodec (base : String) (location : ElementKind) : Codec RepresentationItem :=
  ⟨.representation, Render.representation base, fun pos => readRepresentation pos location,
    RepresentationItem.sourceless⟩

/-- A representation that stands here is written, and is read again inside the position of its
element. -/
theorem representationBody_rereads {r : Representation} (h : r.Sound (plainCriteria base)) :
    ∃ o, Render.representation base (.inline r) = .ok o ∧
      o.kind = .representation ∧ o.Sound ∧ ∀ depth,
      (o.asElement depth).get? "href" = none ∧ (o.asElement depth).get? "id" = r.id ∧
        ∀ inside, Lenient base inside → ∃ q,
          (RepresentationItem.inline q).sourceless = (RepresentationItem.inline r).sourceless ∧
            Always (readRepresentationBody inside (o.asElement depth)) q := by
  obtain ⟨params, hwrite, hparams, hsounds, hread⟩ := params_reread hbase h.params
  have hparams : AllOf .param params := hparams
  have hnames : Named ([("id", r.id), ("mediaType", r.mediaType), ("element", r.element),
      ("profile", r.profile)].map (·.1)) :=
        (by decide : Named ["id", "mediaType", "element", "profile"])
  have hfit : Fit .representation (r.docs.map Render.doc ++ params) :=
    (fit_docs h.docs (by decide)).append (hparams.fit hsounds (by decide))
  obtain ⟨hsound, hkind⟩ := sound_element hnames h.texts hfit
  refine ⟨_, Result.bind_ok.2 ⟨params, hwrite, rfl⟩, hkind, hsound, fun depth => ?_⟩
  have hget := @get?_element .representation _ (r.docs.map Render.doc ++ params) depth hnames.1
  refine ⟨hget "href" (by decide), hget "id" (by decide), fun inside hpos => ?_⟩
  obtain ⟨again, hsame, hreads⟩ := hread inside (depth + 1) hpos
  have hsame : again.map ParamItem.sourceless = r.params.map ParamItem.sourceless := hsame
  refine ⟨{ r with params := again }, ?_, ?_⟩
  · simp only [RepresentationItem.sourceless, hsame]
  · have hfound : ofKind .param (asItems (depth + 1) (r.docs.map Render.doc ++ params)) =
        params.map (asElement (depth + 1)) := by
      simp only [ofKind_append, ofKind_allOf (allOf_docs h.docs),
        ofKind_allOf hparams, reduceCtorEq, if_true, if_false, List.nil_append]
    unfold readRepresentationBody
    refine (always_items hfit depth).bind ?_
    refine (always_readParams h.params hfound hsame hreads).bind ?_
    refine always_pure_of_eq ?_
    simp only [hget "id" (by decide), hget "mediaType" (by decide), hget "element" (by decide),
      hget "profile" (by decide), readDocs, ofKind_append, ofKind_allOf (allOf_docs h.docs),
      ofKind_allOf hparams, reduceCtorEq, if_true, if_false, List.append_nil, map_readDoc h.docs]
    rfl

theorem representation_rereads {location : ElementKind} {item : RepresentationItem}
    (h : item.Sound (plainCriteria base) location) :
    (representationCodec base location).Rereads base item := by
  cases item with
  | inline r =>
    obtain ⟨o, hwrite, hkind, hsound, hread⟩ := representationBody_rereads hbase (h.inline r rfl)
    refine ⟨o, hwrite, hkind, hsound, fun pos depth hpos => ?_⟩
    obtain ⟨hhref, hid, hbody⟩ := hread depth
    obtain ⟨q, hsame, hq⟩ := hbody _ (hpos.enter _)
    refine ⟨.inline q, hsame, ?_⟩
    show Always (readRepresentation pos location _) _
    unfold readRepresentation
    refine (always_requireId (fun hlocation => ?_) _).bind ?_
    · rw [hid]
      exact h.id hlocation
    · split
      · rename_i href heq
        rw [hhref] at heq
        cases heq
      · exact hq.bind (always_pure _)
  | ref r id =>
    obtain ⟨hr, hidText, hnone⟩ := h.ref r id rfl
    obtain ⟨w, hwritten, hjoin, hsound, hkind, hget⟩ := ref_rereads hbase .representation hr hidText
    refine ⟨_, Result.bind_ok.2 ⟨w, hwritten, rfl⟩, hkind, hsound, fun pos depth hpos => ?_⟩
    obtain ⟨hid, hhref⟩ := hget depth
    obtain ⟨r', hsame, hread⟩ := always_reference hr.1 ((hpos.enter _).base.symm ▸ hjoin)
    refine ⟨.ref r' id, congrArg (RepresentationItem.ref · id) hsame, ?_⟩
    show Always (readRepresentation pos location _) _
    unfold readRepresentation
    refine (always_requireId (fun hlocation => ?_) _).bind ?_
    · rw [hid]
      exact h.id hlocation
    · split
      · rename_i href heq
        rw [hhref] at heq
        obtain rfl := Option.some.inj heq
        refine hread.bind ?_
        rw [aliasId_eq hid hnone]
        exact always_pure _
      · rename_i heq
        rw [hhref] at heq
        cases heq

theorem representations_reread {location : ElementKind} {items : List RepresentationItem}
    (h : ∀ item ∈ items, item.Sound (plainCriteria base) location) :
    (representationCodec base location).RereadsAll base items :=
  Codec.rereadsAll fun item hitem => representation_rereads hbase (h item hitem)

end Parts

end Wadl
