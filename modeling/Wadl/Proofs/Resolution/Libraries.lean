import Wadl.Proofs.Resolution.Closure

/-!
# Resolving with a library

A library has finitely many documents, so that all references that can be reached are among those of
its documents and of the description (`Library.reachable_mem`), and `Library.budget` bounds the
steps of a search. `resolve_finds_reachable` puts this together with what every search finds.
-/

namespace Wadl

namespace Library

/-- The references in a document of a library. -/
def referencesOf (strict : Bool) (uri : String) (document : Except LoadError Xml.Node) :
    List Reference :=
  match document with
  | .error _ => []
  | .ok root =>
    match ((readDescription uri strict root).run.run []).1 with
    | .ok app => app.references
    | .error _ => []

theorem length_referencesOf {strict : Bool} {uri : String}
    {document : Except LoadError Xml.Node} :
    (referencesOf strict uri document).length = referenceCount strict uri document := by
  cases document with
  | error e => rfl
  | ok root =>
    unfold referencesOf referenceCount
    simp only
    cases ((readDescription uri strict root).run.run []).1 <;> rfl

/-- The references in a description and in the documents of a library. -/
def allReferences (library : Library) (strict : Bool) (app : Application) : List Reference :=
  app.references ++ library.documents.flatMap fun (uri, document) =>
    referencesOf strict uri document

theorem length_allReferences {library : Library} {strict : Bool} {app : Application} :
    (library.allReferences strict app).length = app.references.length +
      (library.documents.map fun (uri, document) => referenceCount strict uri document).foldr
        (· + ·) 0 := by
  rw [allReferences, List.length_append, List.length_flatMap]
  simp only [length_referencesOf]
  rfl

/-- The web of a description and a library, if there is one. -/
def web (library : Option Library) (strict : Bool) (app : Application) : Web :=
  ⟨app, library.map load, strict⟩

/-- A library loads a document by its own URI, if this has no fragment. -/
theorem load_eq {library : Library} {uri : String} (h : '#' ∉ uri.toList) :
    library.load uri =
      (library.documents.lookup uri).getD (.error (.failed uri .noSuchDocument)) := by
  have hplain : defragmentUri uri = .ok (uri, "") := by
    unfold defragmentUri Uri.defragment
    rw [if_neg (by simpa using h)]
    show Except.ok (String.ofList uri.toList, String.ofList []) = _
    rw [String.ofList_toList]
  unfold load
  rw [hplain]
  simp only
  cases library.documents.lookup uri <;> rfl

/-- The URI of the document that a reference names has no fragment. -/
theorem hash_notMem_of_target {ref : Reference} {uri id : String} (h : ref.target = .ok (uri, id)) :
    '#' ∉ uri.toList := by
  unfold Reference.target defragmentUri at h
  obtain ⟨⟨document, fragment⟩, hdefragment, heq⟩ := Result.map_ok.1 h
  rw [← (Prod.mk.inj heq).1, String.toList_ofList]
  exact Uri.hash_notMem_defragment hdefragment

variable {library : Option Library} {strict : Bool} {app : Application}

/-- What a reference names holds references of the description or of a document of the library. -/
theorem names_sublist {ref : Reference} {t : Target} (h : (web library strict app).Names ref t) :
    t.definition.references.Sublist ((library.getD ⟨[]⟩).allReferences strict app) := by
  obtain ⟨id, d, index, entry, htarget, hd, hindex, hentry, hdef, -⟩ := h
  rw [hdef]
  refine (Application.entry_references (Index.mem_entries hindex hentry)).trans ?_
  unfold Web.IsDocument at hd
  split_ifs at hd
  · rw [hd]
    exact List.sublist_append_left _ _
  · obtain ⟨l, root, notices, hl, hroot, hread⟩ := hd
    obtain ⟨lib, rfl, rfl⟩ := Option.map_eq_some_iff.1 hl
    rw [load_eq (hash_notMem_of_target htarget)] at hroot
    cases hlookup : lib.documents.lookup t.place.document with
    | none =>
      rw [hlookup] at hroot
      cases hroot
    | some document =>
      rw [hlookup] at hroot
      have hreferences : referencesOf strict t.place.document document = d.references := by
        obtain rfl : document = .ok root := hroot
        have hrun : (readDescription t.place.document strict root).run.run [] = (.ok d, notices) :=
          hread
        simp only [referencesOf, hrun]
      rw [← hreferences]
      exact (sublist_flatMap (f := fun x => referencesOf strict x.1 x.2)
        (mem_of_lookup hlookup)).trans (List.sublist_append_right _ _)

theorem reachable_mem {ref : Reference} (h : (web library strict app).Reachable ref) :
    ref ∈ (library.getD ⟨[]⟩).allReferences strict app := by
  cases h with
  | here h => exact List.mem_append_left _ h
  | inside _ hnames h => exact (names_sublist hnames).subset h

/-- Resolving is a search in the web of the library. -/
theorem resolve_eq : resolve library strict app =
    (resolveWith (web library strict app).loading strict ((library.getD ⟨[]⟩).budget strict app)
      app).run.run [] := by
  cases library <;> rfl

/-- The steps that a library can need are known beforehand. -/
theorem length_add_le_budget :
    let all := (library.getD ⟨[]⟩).allReferences strict app
    app.references.length + (all.map (·.href)).length * all.length ≤
      (library.getD ⟨[]⟩).budget strict app := by
  intro all
  rw [List.length_map, length_allReferences, budget]
  simp only
  omega

/-- With a library, resolving succeeds if and only if all reachable references name a definition of
their kind. -/
theorem resolve_isOk_iff {index : Index} (hindex : Index.ofApplication app = .ok index) :
    (resolve library strict app).1.isOk = true ↔ ∀ ref, (web library strict app).Reachable ref →
      (web library strict app).Resolvable ref := by
  constructor
  · intro h ref href
    rcases hr : resolve library strict app with ⟨_ | r, n⟩
    · rw [hr] at h
      cases h
    · rw [resolve_eq] at hr
      exact (Web.resolves_of_gives (w := web library strict app) hr).resolvable href
  · intro hres
    obtain ⟨t, n, hrun⟩ := Web.Invariant.run_gives hres
      (fun ref href => List.mem_map_of_mem (reachable_mem href))
      (fun ref t _ hnames => (names_sublist hnames).length_le) [] (Web.Invariant.start hindex)
      length_add_le_budget
    have hgives : Gives (resolveWith (web library strict app).loading strict
        ((library.getD ⟨[]⟩).budget strict app) app) [] t.resolution n :=
      Web.gives_resolveWith.2 ⟨index, t, hindex, hrun, rfl⟩
    have hresolve : resolve library strict app = (.ok t.resolution, n) := resolve_eq.trans hgives
    rw [hresolve]
    rfl

end Library

/-! ## Resolving -/

theorem index_of_readDescription {base : String} {strict : Bool} {root : Xml.Node}
    {app : Application} (h : Yields (readDescription base strict root) app) :
    ∃ index, Index.ofApplication app = .ok index := by
  obtain ⟨app', -, h⟩ := h.bind
  obtain ⟨index, hindex, h⟩ := h.bind
  rw [← h.pure]
  exact ⟨index, hindex.lift⟩

/-- Resolving a description that was read finds exactly the reachable references. With a library it
succeeds if and only if each of them names a definition of its kind; with any loader it can succeed
if and only if this holds and their URIs are finitely many. The table that is found has the URIs of
the reachable references as its keys, and for each what the index of its document has for it; any
other order gives the same table. -/
theorem resolve_finds_reachable {base : String} {lenient strict : Bool} {root : Xml.Node}
    {app : Application} (h : Yields (readDescription base lenient root) app) :
    (∀ library : Option Library, let w := Library.web library strict app
      ((resolve library strict app).1.isOk = true ↔ ∀ ref, w.Reachable ref → w.Resolvable ref) ∧
      ∀ r, (resolve library strict app).1 = .ok r → w.Resolves r) ∧
    ∀ loader : Option Web.Loader, let w : Web := ⟨app, loader, strict⟩
      ((∃ fuel r n, Gives (resolveWith w.loading strict fuel app) [] r n) ↔
        (∀ ref, w.Reachable ref → w.Resolvable ref) ∧
          ∃ hrefs : List String, ∀ ref, w.Reachable ref → ref.href ∈ hrefs) ∧
      (∀ fuel r n, Gives (resolveWith w.loading strict fuel app) [] r n → w.Resolves r) ∧
      ∀ index s, Index.ofApplication app = .ok index → w.Walk (w.start index) app.references s →
        w.Resolves s.resolution ∧ ∀ r, w.Resolves r →
          ∀ href, s.targets.lookup href = r.targets.lookup href := by
  obtain ⟨index, hindex⟩ := index_of_readDescription h
  refine ⟨fun library => ⟨Library.resolve_isOk_iff hindex, fun r hr => ?_⟩, fun loader => ?_⟩
  · rcases hres : resolve library strict app with ⟨result, n⟩
    rw [hres] at hr
    obtain rfl : result = .ok r := hr
    rw [Library.resolve_eq] at hres
    exact Web.resolves_of_gives (w := Library.web library strict app) hres
  · refine ⟨Web.exists_gives_iff (w := ⟨app, loader, strict⟩) hindex,
      fun fuel r n hgives => Web.resolves_of_gives hgives, fun index' s hindex' hwalk => ?_⟩
    have hs := ((Web.Invariant.start (w := ⟨app, loader, strict⟩) hindex').walk hwalk).resolves
    exact ⟨hs, fun r hr href => hs.lookup_eq hr href⟩

/-- An element in no namespace. -/
def plainElement (label : String) (attributes : List (String × String)) (content : List Xml.Node) :
    Xml.Node :=
  .element ⟨.plain label, attributes.map fun (name, value) => (.plain name, value)⟩ content

/-- A type whose one resource has some types. -/
def typeElement (id types : String) : Xml.Node :=
  plainElement "resource_type" [("id", id)] [plainElement "resource" [("type", types)] []]

/-- The library that `resolve_finds_reachable_ring` reads: its type `s` refers back, and its type
`t`, to which nothing refers, leads nowhere. -/
def ringLibrary : Library :=
  ⟨[("http://h/there", .ok (plainElement "application" []
    [typeElement "s" "here#r", typeElement "t" "#nowhere"]))]⟩

/-- The description of the ring: its type `r` refers to the type `s` of the library. -/
def ringRoot : Xml.Node :=
  plainElement "application" [] [typeElement "r" "there#s #r",
    plainElement "resources" [] [plainElement "resource" [("type", "#r")] []]]

theorem resolve_finds_reachable_ring :
    ∃ app, Yields (readDescription "http://h/here" false ringRoot) app ∧
      (let w := Library.web (some ringLibrary) false app
      (resolve (some ringLibrary) false app).1.isOk = true ∧
        ∀ ref, w.Reachable ref → w.Resolvable ref) := by
  obtain ⟨app, n, happ⟩ := exists_gives (x := readDescription "http://h/here" false ringRoot)
    (s := []) (by decide +kernel)
  have hok : (Id.run ((readDescription "http://h/here" false ringRoot).run.run [])).1.toOption.map
      (fun app => (resolve (some ringLibrary) false app).1.isOk) = some true := by
    decide +kernel
  rw [happ] at hok
  have hisOk := Option.some.inj hok
  exact ⟨app, happ.yields, hisOk,
    (((resolve_finds_reachable happ.yields).1 (some ringLibrary)).1).1 hisOk⟩

end Wadl
