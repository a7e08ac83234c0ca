import Wadl.Proofs.Document.Rereading.Params
import Wadl.Proofs.Number.Numeral

/-!
# Methods that are read again

Requests, responses and methods are read as they are written, sources apart (`method_rereads`). The
statuses of a response are words of one attribute, and each is read from the numeral that is written
for it.
-/

namespace Wadl

open Reader Outline

theorem mapM_map_eq_some {α β : Type} {f : β → Option α} {g : α → β} :
    ∀ {xs : List α}, (∀ x ∈ xs, f (g x) = some x) → (xs.map g).mapM f = some xs
  | [], _ => rfl
  | x :: xs, h => by
    obtain ⟨hx, hxs⟩ := List.forall_mem_cons.1 h
    rw [List.map_cons, List.mapM_cons, hx, mapM_map_eq_some hxs]
    rfl

/-! ## Words of an attribute -/

theorem words_getD (ws : List String) : (Render.words ws).getD "" = " ".intercalate ws := by
  unfold Render.words
  simp only
  split
  · rename_i hempty
    exact (String.isEmpty_iff.1 hempty).symm
  · rfl

theorem isText_words {ws : List String} (h : ∀ w ∈ ws, Xml.IsText w) :
    ∀ s, Render.words ws = some s → Xml.IsText s := by
  intro s hs
  have hjoined : s = " ".intercalate ws := by
    rw [← words_getD, hs]
    rfl
  rw [hjoined]
  intro c hc
  rw [String.toList_intercalate] at hc
  rcases mem_intercalate hc with hc | ⟨chars, hchars, hc⟩
  · obtain rfl : c = ' ' := by simpa using hc
    decide
  · obtain ⟨w, hw, rfl⟩ := List.mem_map.1 hchars
    exact h w hw c hc

theorem isText_toString (n : Int) : Xml.IsText (toString n) := by
  intro c hc
  rw [Numeral.toList_toString] at hc
  have hrange := Numeral.mem_signed (Numeral.digits_toDigits n.natAbs) hc
  unfold Xml.isChar
  simp only
  rw [if_neg (by omega)]
  simp only [Bool.and_eq_true, bne_iff_ne]
  omega

/-! ## Requests and responses -/

section Parts

variable {base : String} (hbase : HttpBase base)

include hbase

/-- What requests and responses hold is written, and is read again. -/
theorem body_rereads {k : ElementKind} (hk : k.children = [.doc, .param, .representation])
    {params : List ParamItem} {items : List RepresentationItem} {docs : List Doc}
    (hparams : ParamsSound (plainCriteria base) k params)
    (hitems : ∀ item ∈ items, item.Sound (plainCriteria base) k) (hdocs : ∀ d ∈ docs, d.Plain) :
    ∃ ps rs, params.mapM (Render.param base) = .ok ps ∧
      items.mapM (Render.representation base) = .ok rs ∧
      Fit k (docs.map Render.doc ++ ps ++ rs) ∧ ∀ inside depth, Lenient base inside →
        ∃ params' items', params'.map ParamItem.sourceless = params.map ParamItem.sourceless ∧
          items'.map RepresentationItem.sourceless = items.map RepresentationItem.sourceless ∧
          Always (readParams inside k (asItems depth (docs.map Render.doc ++ ps ++ rs))) params' ∧
          Always (readRepresentations inside k (asItems depth (docs.map Render.doc ++ ps ++ rs)))
            items' ∧
          readDocs (asItems depth (docs.map Render.doc ++ ps ++ rs)) = docs := by
  obtain ⟨ps, hwrite, hps, hparamSounds, hparamRead⟩ := params_reread hbase hparams
  obtain ⟨rs, hwrites, hrs, hitemSounds, hitemRead⟩ := representations_reread hbase hitems
  have hps : AllOf .param ps := hps
  have hrs : AllOf .representation rs := hrs
  have hfit : Fit k (docs.map Render.doc ++ ps ++ rs) :=
    ((fit_docs hdocs (by simp [hk])).append (hps.fit hparamSounds (by simp [hk]))).append
      (hrs.fit hitemSounds (by simp [hk]))
  refine ⟨ps, rs, hwrite, hwrites, hfit, fun inside depth hpos => ?_⟩
  obtain ⟨params', hparamSame, hparamReads⟩ := hparamRead inside depth hpos
  obtain ⟨items', hitemSame, hitemReads⟩ := hitemRead inside depth hpos
  have hkinds : ∀ l, ofKind l (asItems depth (docs.map Render.doc ++ ps ++ rs)) =
      (if .doc = l then (docs.map Render.doc).map (asElement depth) else []) ++
        (if .param = l then ps.map (asElement depth) else []) ++
        (if .representation = l then rs.map (asElement depth) else []) := by
    intro l
    rw [ofKind_append, ofKind_append, ofKind_allOf (allOf_docs hdocs),
      ofKind_allOf hps, ofKind_allOf hrs]
  refine ⟨params', items', hparamSame, hitemSame, ?_, ?_, ?_⟩
  · have hfound := hkinds .param
    simp only [reduceCtorEq, if_true, if_false, List.nil_append, List.append_nil] at hfound
    exact always_readParams hparams hfound hparamSame hparamReads
  · unfold readRepresentations
    rw [hkinds]
    exact always_mapM_asElement hitemReads
  · rw [readDocs, hkinds]
    simp only [reduceCtorEq, if_true, if_false, List.append_nil, map_readDoc hdocs]

/-- How requests are written and read. -/
def requestCodec (base : String) : Codec Request :=
  ⟨.request, Render.request base, readRequest, Request.sourceless⟩

theorem request_rereads {r : Request} (h : r.Sound (plainCriteria base)) :
    (requestCodec base).Rereads base r := by
  obtain ⟨ps, rs, hwrite, hwrites, hfit, hread⟩ :=
    body_rereads hbase rfl h.params h.representations h.docs
  obtain ⟨hsound, hkind⟩ := @sound_element .request [] _ (by decide) (by simp) hfit
  refine ⟨_, ?_, hkind, hsound, fun pos depth hpos => ?_⟩
  · exact Result.bind_ok.2 ⟨ps, hwrite, Result.bind_ok.2 ⟨rs, hwrites, rfl⟩⟩
  · obtain ⟨params, items, hparamSame, hitemSame, hparams, hitems, hdocs⟩ :=
      hread (pos.enter "request") (depth + 1) (hpos.enter _)
    refine ⟨⟨params, items, r.docs⟩, ?_, ?_⟩
    · show Request.mk _ _ _ = Request.mk _ _ _
      rw [hparamSame, hitemSame]
    · show Always (readRequest pos _) _
      unfold readRequest
      refine (always_items hfit depth).bind (hparams.bind (hitems.bind ?_))
      exact always_pure_of_eq (by rw [hdocs])

/-- How responses are written and read. -/
def responseCodec (base : String) : Codec Response :=
  ⟨.response, Render.response base, readResponse, Response.sourceless⟩

theorem response_rereads {r : Response} (h : r.Sound (plainCriteria base)) :
    (responseCodec base).Rereads base r := by
  obtain ⟨ps, rs, hwrite, hwrites, hfit, hread⟩ :=
    body_rereads hbase rfl h.params h.representations h.docs
  have hnames : Named ([("status", Render.words (r.status.map toString))].map (·.1)) :=
    (by decide : Named ["status"])
  have htexts : (plainCriteria base).Texts [Render.words (r.status.map toString)] := by
    refine Criteria.texts_cons.2 ⟨isText_words fun w hw => ?_, Criteria.texts_nil _⟩
    obtain ⟨n, -, rfl⟩ := List.mem_map.1 hw
    exact isText_toString n
  obtain ⟨hsound, hkind⟩ := sound_element hnames htexts hfit
  refine ⟨_, ?_, hkind, hsound, fun pos depth hpos => ?_⟩
  · exact Result.bind_ok.2 ⟨ps, hwrite, Result.bind_ok.2 ⟨rs, hwrites, rfl⟩⟩
  · have hstatus :=
      @get?_element .response _ (r.docs.map Render.doc ++ ps ++ rs) depth hnames.1
        "status" (by decide)
    have hwords : (((Render.element .response [("status", Render.words (r.status.map toString))]
        (r.docs.map Render.doc ++ ps ++ rs)).asElement depth).get? "status").getD "" =
          " ".intercalate (r.status.map toString) := by
      rw [hstatus]
      exact words_getD _
    have hcodes : ∀ inside,
        Always (readStatus inside (" ".intercalate (r.status.map toString))) r.status := by
      intro inside
      have hwordList : ∀ w ∈ r.status.map toString, IsWord w := by
        intro w hw
        obtain ⟨n, -, rfl⟩ := List.mem_map.1 hw
        exact isWord_toString n
      have hnumbers : (r.status.map toString).mapM readInteger = some r.status :=
        mapM_map_eq_some fun n hn => readInteger_toString (h.status n hn)
      unfold readStatus
      rw [wordsOf_intercalate hwordList, hnumbers]
      exact always_pure _
    obtain ⟨params, items, hparamSame, hitemSame, hparams, hitems, hdocs⟩ :=
      hread _ (depth + 1) (hpos.enter _)
    refine ⟨⟨r.status, params, items, r.docs⟩, ?_, ?_⟩
    · show Response.mk _ _ _ _ = Response.mk _ _ _ _
      rw [hparamSame, hitemSame]
    · show Always (readResponse pos _) _
      unfold readResponse
      simp only [hwords]
      refine (hcodes _).bind ((always_items hfit depth).bind (hparams.bind (hitems.bind ?_)))
      exact always_pure_of_eq (by rw [hdocs])

/-! ## Methods -/

theorem onlyRequest_rereads {request : Option Request}
    (h : ∀ r, request = some r → r.Sound (plainCriteria base)) :
    ∃ os, request.toList.mapM (Render.request base) = .ok os ∧ AllOf .request os ∧
      (∀ o ∈ os, o.Sound) ∧ ∀ inside depth, Lenient base inside →
        ∃ again, again.map Request.sourceless = request.map Request.sourceless ∧
          Always (readOnlyRequest inside (os.map (asElement depth))) again := by
  cases request with
  | none =>
    refine ⟨[], rfl, ?_, ?_, fun inside depth _ => ⟨none, rfl, always_pure none⟩⟩
    · intro o ho
      cases ho
    · intro o ho
      cases ho
  | some r =>
    obtain ⟨o, hwrite, hkind, hsound, hread⟩ := request_rereads hbase (h r rfl)
    have hwrites : (some r).toList.mapM (Render.request base) = .ok [o] :=
      Result.mapM_ok.2 (.cons hwrite .nil)
    refine ⟨[o], hwrites, List.forall_mem_singleton.2 hkind, List.forall_mem_singleton.2 hsound,
      fun inside depth hpos => ?_⟩
    obtain ⟨r', hsame, hr'⟩ := hread inside depth hpos
    exact ⟨some r', congrArg some hsame, hr'.map⟩

/-- A method that stands here is written, and is read again inside the position of its element. -/
theorem methodBody_rereads {m : Method} (h : m.Sound (plainCriteria base)) :
    ∃ o, Render.methodBody base m = .ok o ∧ o.kind = .method ∧ o.Sound ∧ ∀ depth,
      (o.asElement depth).get? "href" = none ∧ (o.asElement depth).get? "id" = m.id ∧
        ∀ inside, Lenient base inside → ∃ again, Method.sourceless again = m.sourceless ∧
          Always (readMethodBody inside (o.asElement depth)) again := by
  obtain ⟨requests, hwrite, hrequests, hrequestSounds, hrequestRead⟩ :=
    onlyRequest_rereads hbase h.request
  obtain ⟨responses, hwrites, hresponses, hresponseSounds, hresponseRead⟩ :=
    Codec.rereadsAll fun r hr => response_rereads hbase (h.responses r hr)
  have hresponses : AllOf .response responses := hresponses
  have hnames : Named ([("name", some m.name), ("id", m.id)].map (·.1)) :=
    (by decide : Named ["name", "id"])
  have hfit : Fit .method (m.docs.map Render.doc ++ requests ++ responses) :=
    ((fit_docs h.docs (by decide)).append (hrequests.fit hrequestSounds (by decide))).append
      (hresponses.fit hresponseSounds (by decide))
  obtain ⟨hsound, hkind⟩ := sound_element hnames h.texts hfit
  refine ⟨_, ?_, hkind, hsound, fun depth => ?_⟩
  · exact Result.bind_ok.2 ⟨requests, hwrite, Result.bind_ok.2 ⟨responses, hwrites, rfl⟩⟩
  · have hget :=
      @get?_element .method _ (m.docs.map Render.doc ++ requests ++ responses) depth hnames.1
    refine ⟨hget "href" (by decide), hget "id" (by decide), fun inside hpos => ?_⟩
    obtain ⟨request, hrequestSame, hrequest⟩ := hrequestRead inside (depth + 1) hpos
    obtain ⟨again, hsame, hreads⟩ := hresponseRead inside (depth + 1) hpos
    have hsame : again.map Response.sourceless = m.responses.map Response.sourceless := hsame
    refine ⟨⟨m.name, m.id, request, again, m.docs⟩, ?_, ?_⟩
    · show Method.mk _ _ _ _ _ = Method.mk _ _ _ _ _
      rw [hrequestSame, hsame]
    · unfold readMethodBody
      refine (always_required (hget "name" (by decide)) _).bind ((always_items hfit depth).bind ?_)
      simp only [readDocs, ofKind_append, ofKind_allOf (allOf_docs h.docs), ofKind_allOf hrequests,
        ofKind_allOf hresponses, reduceCtorEq, if_true, if_false, List.nil_append, List.append_nil,
        map_readDoc h.docs]
      refine hrequest.bind ((always_mapM_asElement hreads).bind ?_)
      exact always_pure_of_eq (by rw [hget "id" (by decide)]; rfl)

/-- How the methods of a resource are written and read. -/
def methodCodec (base : String) : Codec MethodItem :=
  ⟨.method, Render.method base, readMethod, MethodItem.sourceless⟩

theorem method_rereads {item : MethodItem} (h : item.Sound (plainCriteria base)) :
    (methodCodec base).Rereads base item := by
  cases item with
  | inline m =>
    obtain ⟨o, hwrite, hkind, hsound, hread⟩ := methodBody_rereads hbase (h.inline m rfl)
    refine ⟨o, hwrite, hkind, hsound, fun pos depth hpos => ?_⟩
    obtain ⟨hhref, -, hbody⟩ := hread depth
    obtain ⟨again, hsame, hagain⟩ := hbody (insideMethod pos (o.asElement depth)) (hpos.enter _)
    refine ⟨.inline again, congrArg MethodItem.inline hsame, ?_⟩
    show Always (readMethod pos _) _
    unfold readMethod
    simp only [hhref]
    exact hagain.bind (always_pure _)
  | ref r =>
    have hr := h.ref r rfl
    have hnone : (plainCriteria base).Texts [none] := by
      intro s hs
      simp at hs
    obtain ⟨w, hwritten, hjoin, hsound, hkind, hget⟩ := ref_rereads hbase .method hr hnone
    -- an absent identifier is not written, so the element is the one of a reference with an
    -- identifier
    have hwrite : Render.method base (.ref r) =
        .ok (Render.element .method [("id", none), ("href", some w)] []) :=
      Result.bind_ok.2 ⟨w, hwritten, rfl⟩
    refine ⟨_, hwrite, hkind, hsound, fun pos depth hpos => ?_⟩
    obtain ⟨-, hhref⟩ := hget depth
    generalize (Render.element .method [("id", none), ("href", some w)] []).asElement depth =
      e at hhref
    obtain ⟨r', hsame, hread⟩ := always_reference hr.1 ((hpos.enter _).base.symm ▸ hjoin)
    refine ⟨.ref r', congrArg MethodItem.ref hsame, ?_⟩
    show Always (readMethod pos e) _
    unfold readMethod
    split
    · rename_i href heq
      rw [hhref] at heq
      obtain rfl := Option.some.inj heq
      exact hread.bind (always_pure _)
    · rename_i heq
      rw [hhref] at heq
      cases heq

/-- How the methods of an application are written and read. -/
def topMethodCodec (base : String) : Codec Method :=
  ⟨.method, Render.methodBody base, readTopMethod, Method.sourceless⟩

theorem topMethod_rereads {m : Method} (h : m.Sound (plainCriteria base))
    (hid : m.id.isSome = true) : (topMethodCodec base).Rereads base m := by
  obtain ⟨o, hwrite, hkind, hsound, hread⟩ := methodBody_rereads hbase h
  refine ⟨o, hwrite, hkind, hsound, fun pos depth hpos => ?_⟩
  obtain ⟨-, hget, hbody⟩ := hread depth
  obtain ⟨again, hsame, hagain⟩ := hbody (insideMethod pos (o.asElement depth)) (hpos.enter _)
  refine ⟨again, hsame, ?_⟩
  show Always (readTopMethod pos _) _
  unfold readTopMethod
  exact (always_requireId (fun _ => by rw [hget]; exact hid) _).bind hagain

theorem methods_reread {methods : List MethodItem} (h : MethodsSound (plainCriteria base) methods) :
    (methodCodec base).RereadsAll base methods :=
  Codec.rereadsAll fun m hm => method_rereads hbase (h.items m hm)

omit hbase in
/-- Methods with different identifiers are read again as a whole. -/
theorem always_readMethods {methods again : List MethodItem} {pos : Position}
    {found : List (ElementKind × Element)} {os : List Outline} {depth : Nat}
    (h : MethodsSound (plainCriteria base) methods)
    (hfound : ofKind .method found = os.map (asElement depth))
    (hsame : again.map MethodItem.sourceless = methods.map MethodItem.sourceless)
    (hread : List.Forall₂ (fun o y => Always (readMethod pos (asElement depth o)) y) os again) :
    Always (readMethods pos found) again := by
  have hids : (again.filterMap methodId?).Nodup := by
    rw [← methodIds_sourceless, hsame, methodIds_sourceless]
    exact h.ids
  unfold readMethods
  rw [hfound]
  refine (always_mapM_asElement hread).bind ?_
  exact (always_refuse (nodup_iff_firstRepeated.2 hids) _).bind (always_pure again)

end Parts

end Wadl
