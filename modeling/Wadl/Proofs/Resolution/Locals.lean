import Wadl.Proofs.Document.Hrefs
import Wadl.Proofs.Resolution.Failures
import Wadl.Proofs.Uri.Normal

/-!
# References within a document

The references of a description that is resolved without a library have to name definitions of the
description itself (`Library.resolvable_alone`), so that their document has to be its base. A
reference that is written as a fragment is one of the base just if this is normal
(`Uri.defragment_join_hash`). `resolve_fragments` puts this together for the documents all of whose
references are written so.
-/

namespace Wadl

open Reader Search

/-- A description declares an identifier for a definition of a kind. -/
def Application.Offers (app : Application) (id : String) (kind : DefinitionKind) : Prop :=
  ∃ d steps, app.Declares id d steps ∧ d.kind? = some kind

/-- An identifier without line ends and tabs. -/
def unbroken (id : String) : String := String.ofList (Uri.withoutBreaks id.toList)

/-! ## Fragments -/

theorem reads_fragment {base id href : String} (h : joinUri base ("#" ++ id) = .ok href) :
    ∃ document, defragmentUri href = .ok (document, unbroken id) ∧
      (document = base ↔ Uri.IsNormal base.toList) := by
  obtain ⟨uri, huri, rfl⟩ := Result.map_ok.1 h
  rw [String.toList_append, show "#".toList = ['#'] from rfl, List.singleton_append] at huri
  obtain ⟨document, hdocument, hnormal⟩ := Uri.defragment_join_hash huri
  refine ⟨String.ofList document, ?_, ?_⟩
  · rw [defragmentUri, String.toList_ofList, hdocument]
    rfl
  · rw [← hnormal, ← String.toList_inj, String.toList_ofList]

/-- A fragment names what a description with this base declares just if the base is normal and the
description declares the identifier without line ends and tabs. -/
theorem offered_iff {app : Application} {base id : String} {kind : DefinitionKind} {ref : Reference}
    (h : joinUri base ("#" ++ id) = .ok ref.href) :
    (∃ i, ref.target = .ok (base, i) ∧ app.Offers i kind) ↔
      Uri.IsNormal base.toList ∧ app.Offers (unbroken id) kind := by
  obtain ⟨document, htarget, hnormal⟩ := reads_fragment h
  rw [← hnormal, Reference.target, htarget]
  constructor
  · rintro ⟨i, hi, hoffers⟩
    obtain ⟨rfl, rfl⟩ := Prod.mk.inj (Except.ok.inj hi)
    exact ⟨rfl, hoffers⟩
  · rintro ⟨rfl, hoffers⟩
    exact ⟨_, rfl, hoffers⟩

/-- The references of a document are fragments, whose document is the base just if this is
normal. -/
def Fragments (base : String) (refs : List Reference) : Prop :=
  ∀ ref ∈ refs, ∃ document id, ref.target = .ok (document, id) ∧
    (document = base ↔ Uri.IsNormal base.toList)

theorem Reader.Joined.fragments {base : String} {hrefs : List (DefinitionKind × String)}
    {refs : List Reference} (h : Joined base hrefs refs)
    (hhash : ∀ x ∈ hrefs, ∃ id, x.2 = "#" ++ id) : Fragments base refs := by
  intro ref href
  obtain ⟨x, hx, -, hjoin⟩ := exists_left_of_forall₂ h href
  obtain ⟨id, hid⟩ := hhash x hx
  rw [hid] at hjoin
  obtain ⟨document, hdocument, hnormal⟩ := reads_fragment hjoin
  exact ⟨document, _, hdocument, hnormal⟩

/-! ## Descriptions that stand alone -/

namespace Library

variable {strict : Bool} {app : Application} {ref : Reference}

theorem isDocument_alone {uri : String} {d : Application} :
    (web none strict app).IsDocument uri d ↔ uri = app.baseUri ∧ d = app := by
  unfold Web.IsDocument web
  split_ifs with hbase
  · exact ⟨fun h => ⟨hbase, h⟩, fun h => h.2⟩
  · constructor
    · rintro ⟨l, -, -, hl, -⟩
      cases hl
    · exact fun h => absurd h.1 hbase

/-- The references that are reached are those of the description. -/
theorem reachable_alone : (web none strict app).Reachable ref ↔ ref ∈ app.references := by
  constructor
  · intro h
    have hmem := reachable_mem h
    rwa [allReferences, show ((none : Option Library).getD ⟨[]⟩).documents =
      [] from rfl, List.flatMap_nil, List.append_nil] at hmem
  · exact fun h => .here h

/-- A reference names what the description declares for the identifier. -/
theorem resolvable_alone (hunique : repeatedEntry? [] app.entries = none) :
    (web none strict app).Resolvable ref ↔
      ∃ id, ref.target = .ok (app.baseUri, id) ∧ app.Offers id ref.kind := by
  obtain ⟨index, hindex, -, hdeclares⟩ := index_exact hunique
  constructor
  · rintro ⟨t, ⟨id, d, index', entry, htarget, hdocument, hindex', hentry,
      hdefinition, hsteps⟩, hkind⟩
    obtain ⟨hbase, rfl⟩ := isDocument_alone.1 hdocument
    obtain rfl := Except.ok.inj (hindex.symm.trans hindex')
    rw [hbase] at htarget
    exact ⟨id, htarget, t.definition, t.place.steps,
      (hdeclares _ _ _).2 ⟨entry, hentry, hdefinition.symm, hsteps.symm⟩, hkind⟩
  · rintro ⟨id, htarget, d, steps, hdeclared, hkind⟩
    obtain ⟨entry, hentry, hdefinition, hsteps⟩ := (hdeclares _ _ _).1 hdeclared
    exact ⟨⟨d, ⟨app.baseUri, steps⟩⟩,
      ⟨id, app, index, entry, htarget, isDocument_alone.2 ⟨rfl, rfl⟩, hindex, hentry,
      hdefinition.symm, hsteps.symm⟩, hkind⟩

variable (app) in
/-- An error says that a reference cannot be followed, and that its document was not loaded just if
the base is not normal. -/
def Unfollowed (base : String) (error : ResolveError) : Prop :=
  ∃ ref ∈ app.references, ∃ reason, error = .unresolved ref.href ref.source reason ∧
    ((∃ uri, reason = .notLoaded uri uri .notConfigured) ↔ ¬Uri.IsNormal base.toList)

/-- An error about a fragment of the description itself. -/
theorem unfollowed_own {base : String} {reason : UnresolvedReason} (hmem : ref ∈ app.references)
    (hnormal : Uri.IsNormal base.toList)
    (hreason : ∀ uri, reason ≠ .notLoaded uri uri .notConfigured) :
    Unfollowed app base (.unresolved ref.href ref.source reason) :=
  ⟨ref, hmem, reason, rfl, iff_of_false (fun ⟨uri, huri⟩ => hreason uri huri) fun hn => hn hnormal⟩

/-- The only document that is known is the description. -/
theorem documentFor_alone {s : State} {base document : String} (hbase : app.baseUri = base)
    (hs : (web none strict app).Knows s.documents) (hmem : ref ∈ app.references)
    (hnormal : document = base ↔ Uri.IsNormal base.toList) :
    Ensures (documentFor (web none strict app).loading strict s document ref)
      (fun _ => document = base) (Unfollowed app base) := by
  unfold documentFor
  split
  · rename_i d index hlookup
    exact .pure ((isDocument_alone.1 (hs.each _ _ _ hlookup).1).1.trans hbase)
  · rename_i hlookup
    refine .throw ⟨ref, hmem, _, rfl, iff_of_true ⟨document, rfl⟩ fun hn => ?_⟩
    obtain ⟨index, -, hself⟩ := hs.self
    rw [hnormal.2 hn, ← hbase] at hlookup
    exact absurd (hself.symm.trans hlookup) nofun

theorem followOne_alone {s : State} {queue : List Reference} {base : String}
    (hbase : app.baseUri = base) (hfragments : Fragments base app.references)
    (hs : (web none strict app).Invariant s (ref :: queue)) :
    Ensures (followOne (web none strict app).loading strict s ref) (fun _ => True)
      (Unfollowed app base) := by
  have hmem := reachable_alone.1 (hs.queued ref List.mem_cons_self)
  obtain ⟨document, id, htarget, hnormal⟩ := hfragments ref hmem
  have hcheck : ∀ {found}, document = base →
      Ensures (liftM (checkKind ref id found) : Following Id Unit) (fun _ => True)
        (Unfollowed app base) := by
    intro found hown
    refine .lift (fun _ _ => trivial) fun error herror => ?_
    unfold checkKind at herror
    split at herror
    · cases herror
    · rw [← Except.error.inj herror]
      exact unfollowed_own hmem (hnormal.1 hown) fun _ => UnresolvedReason.noConfusion
  unfold followOne
  split
  · rename_i known hknown
    rw [htarget]
    obtain ⟨ref', -, hsame, ⟨id', d, -, -, htarget', hdocument, -⟩, -⟩ := hs.sound _ _ hknown
    rw [Reference.target, hsame, ← Reference.target, htarget] at htarget'
    obtain ⟨hplace, -⟩ := Prod.mk.inj (Except.ok.inj htarget')
    exact (hcheck (hplace.trans ((isDocument_alone.1 hdocument).1.trans hbase))).bind fun _ _ =>
      .pure trivial
  · refine Ensures.bind (Q := fun _ => True) ?_ fun _ _ => .pure trivial
    unfold lookUp
    rw [htarget]
    refine (documentFor_alone hbase hs.knows hmem hnormal).bind fun found hown => ?_
    simp only
    split
    · exact .throw (unfollowed_own hmem (hnormal.1 hown) fun _ => UnresolvedReason.noConfusion)
    · exact (hcheck hown).bind fun _ _ => .pure trivial

end Library

/-! ## Resolving -/

/-- A document all of whose references are fragments is resolved without a library if and only if it
has none, or its base is normal and it declares the identifier of each, without line ends and tabs,
for a definition of the kind that is asked for. Then all that the references name stands in the
description itself; otherwise a reference cannot be followed, and is said not to be loaded just if
the base is not normal. -/
theorem resolve_fragments {base : String} {lenient strict : Bool} {e : Element} {app : Application}
    (h : Yields (readDescription base lenient e.node) app)
    (hhash : ∀ x ∈ hrefsIn e.content, ∃ id, x.2 = "#" ++ id) :
    ((resolve none strict app).1.isOk = true ↔ hrefsIn e.content = [] ∨ Uri.IsNormal base.toList ∧
      ∀ x ∈ hrefsIn e.content, ∃ id, x.2 = "#" ++ id ∧ app.Offers (unbroken id) x.1) ∧
    (∀ r, (resolve none strict app).1 = .ok r → ∀ href t, (href, t) ∈ r.targets →
      t.place.document = base ∧ r.documents.lookup base = some app) ∧
    ∀ error, (resolve none strict app).1 = .error error → Library.Unfollowed app base error := by
  have hsound := readDescription_sound_loose h
  have hbase : app.baseUri = base := hsound.base
  have hjoined := joined_readDescription h
  have hfragments := hjoined.fragments hhash
  obtain ⟨index, hindex⟩ := index_of_readDescription h
  refine ⟨?_, fun r hr => ?_, fun error herror => ?_⟩
  · simp only [Library.resolve_isOk_iff hindex, Library.reachable_alone,
      Library.resolvable_alone hsound.index, hbase]
    constructor
    · intro hresolvable
      refine or_iff_not_imp_left.2 fun hsome => ?_
      have hoffered : ∀ x ∈ hrefsIn e.content, ∃ id, x.2 = "#" ++ id ∧
          Uri.IsNormal base.toList ∧ app.Offers (unbroken id) x.1 := by
        intro x hx
        obtain ⟨ref, href, hkind, hjoin⟩ := exists_right_of_forall₂ hjoined hx
        obtain ⟨id, hid⟩ := hhash x hx
        rw [hid] at hjoin
        exact ⟨id, hid, (offered_iff hjoin).1 (hkind ▸ hresolvable ref href)⟩
      obtain ⟨x, hx⟩ := List.exists_mem_of_ne_nil _ hsome
      obtain ⟨-, -, hnormal, -⟩ := hoffered x hx
      exact ⟨hnormal, fun y hy => (hoffered y hy).imp fun _ hid => ⟨hid.1, hid.2.2⟩⟩
    · intro hoffered ref href
      obtain ⟨x, hx, hkind, hjoin⟩ := exists_left_of_forall₂ hjoined href
      obtain ⟨hnormal, heach⟩ := hoffered.resolve_left (List.ne_nil_of_mem hx)
      obtain ⟨id, hid, hoffers⟩ := heach x hx
      rw [hid] at hjoin
      exact (offered_iff hjoin).2 ⟨hnormal, hkind ▸ hoffers⟩
  · intro href t hmem
    have hresolves := ((resolve_finds_reachable h).1 none).2 r hr
    obtain ⟨ref, hreachable, rfl⟩ := (hresolves.mem_keys href).1 (List.mem_map_of_mem hmem)
    obtain ⟨t', document, hlookup, -, -, hdocument, his⟩ := hresolves.lookup ref hreachable
    obtain rfl := Option.some.inj ((lookup_of_mem hresolves.keys_nodup hmem).symm.trans hlookup)
    obtain ⟨hplace, rfl⟩ := Library.isDocument_alone.1 his
    rw [hplace, hbase] at hdocument
    exact ⟨hplace.trans hbase, hdocument⟩
  · rcases hres : resolve none strict app with ⟨result, n⟩
    rw [hres] at herror
    obtain rfl : result = .error error := herror
    exact Library.fails_as_step hindex
      (fun s ref queue hs => Library.followOne_alone hbase hfragments hs) hres

/-- A document with two types, to which the first one refers. -/
def ownTypes : Element :=
  ⟨⟨.plain "application", []⟩, [typeElement "r" "#r #s", typeElement "s" ""]⟩

/-- The document is resolved at one base, and not at another that differs in the case of its
scheme. -/
theorem resolve_fragments_ownTypes :
    (∃ app, Yields (readDescription "http://h/d" false ownTypes.node) app ∧
      (resolve none false app).1.isOk = true ∧ Uri.IsNormal "http://h/d".toList) ∧
    ∃ app, Yields (readDescription "HTTP://h/d" false ownTypes.node) app ∧
      ¬(resolve none false app).1.isOk = true ∧ ¬Uri.IsNormal "HTTP://h/d".toList := by
  have hhash : ∀ x ∈ hrefsIn ownTypes.content, ∃ id, x.2 = "#" ++ id := by
    have hhrefs : hrefsIn ownTypes.content = [(.resourceType, "#r"), (.resourceType, "#s")] := by
      decide +kernel
    rw [hhrefs]
    rintro x (_ | ⟨_, _ | ⟨_, ⟨⟩⟩⟩)
    · exact ⟨"r", rfl⟩
    · exact ⟨"s", rfl⟩
  have hnot : ¬Uri.IsNormal "HTTP://h/d".toList := by decide +kernel
  obtain ⟨app, n, happ⟩ :=
    exists_gives (x := readDescription "http://h/d" false ownTypes.node) (s := [])
    (by decide +kernel)
  obtain ⟨app', n', happ'⟩ :=
    exists_gives (x := readDescription "HTTP://h/d" false ownTypes.node) (s := [])
    (by decide +kernel)
  have hok : (Id.run ((readDescription "http://h/d" false ownTypes.node).run.run [])).1.toOption.map
      (fun app => (resolve none false app).1.isOk) = some true := by
    decide +kernel
  rw [happ] at hok
  have hisOk := Option.some.inj hok
  refine ⟨⟨app, happ.yields, hisOk, ?_⟩, app', happ'.yields, fun hisOk' => ?_, hnot⟩
  · exact (((resolve_fragments happ.yields hhash).1.1 hisOk).resolve_left (by decide +kernel)).1
  · exact hnot (((resolve_fragments happ'.yields hhash).1.1 hisOk').resolve_left
      (by decide +kernel)).1

end Wadl
