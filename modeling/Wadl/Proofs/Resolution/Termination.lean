import Wadl.Proofs.Resolution.Loads

/-!
# Searches end, and load each document once

With a loader that has finitely many documents the reachable references are finitely many
(`Web.exists_references`), so that a search ends, in whatever circles its references go. Each
document is asked for at most once and the description never; a search that succeeds knows what it
asked for, and one that fails asked only for documents of references up to the one on which it
fails, in breadth-first order (`Web.LoadsOnce`). `resolve_loads_once` puts this together.
-/

namespace Wadl

open Search

namespace Web

variable {w : Web} {c c' : List String}

/-! ## What a search asks for -/

variable (w) in
/-- A search fails with an error on the last of some references in breadth-first order: it does not
name a definition of its kind, and those before it do. -/
structure FailsAt (e : ResolveError) (before : List Reference) (last : Reference) : Prop where
  inOrder : w.InOrder (before ++ [last])
  resolvable : ∀ ref ∈ before, w.Resolvable ref
  unresolvable : ¬w.Resolvable last
  fails : ∃ s, Fails (followOne w.loading w.strict s last) e

/-- A run ends where all references are followed, or because it may take fewer steps than it needs,
or it fails on a reference. -/
theorem Progress.run :
    ∀ {fuel : Nat} {s : State} {taken queue : List Reference} {c c' : List String}
    {r : Except ResolveError State}, w.Progress s taken c → w.Invariant s queue →
    w.Queue taken queue → Asks (run w.noting w.strict fuel s queue) c r c' →
    (w.app.baseUri :: c').Nodup ∧ (∀ t, r = .ok t → ∃ taken', w.Progress t taken' c') ∧
      ∀ e, r = .error e → e ≠ .exhausted →
        ∃ before last, w.FailsAt e before last ∧ ∀ uri ∈ c', AskedFor (before ++ [last]) uri
  | 0, s, taken, [], _, _, _, h, _, _, hasks | _ + 1, s, taken, [], _, _, _, h, _, _, hasks => by
    obtain ⟨rfl, rfl⟩ := asks_pure.1 hasks
    refine ⟨h.nodup, fun t ht => ⟨taken, ?_⟩, by simp⟩
    rwa [← Except.ok.inj ht]
  | 0, s, taken, ref :: queue, _, _, _, h, _, _, hasks => by
    obtain ⟨rfl, rfl⟩ := asks_throw.1 hasks
    exact ⟨h.nodup, by simp, fun e he hne => absurd (Except.error.inj he).symm hne⟩
  | fuel + 1, s, taken, ref :: queue, _, _, _, h, hinv, hqueue, hasks => by
    rcases hasks.bind with ⟨e, hfollow, rfl⟩ | ⟨⟨s', found⟩, u, hfollow, hrun⟩
    · have hfails := followOne_agree.fails hfollow
      obtain ⟨asked, rfl, hasked, -⟩ := followOne_asks hfollow
      refine ⟨h.nodup_append fun uri huri => (hasked uri huri).1, by simp, fun e' he _ => ?_⟩
      obtain rfl := Except.error.inj he
      refine ⟨taken, ref, ⟨hqueue.inOrder, h.resolvable, fun hres => ?_, s, hfails⟩,
        fun uri huri => ?_⟩
      · -- a reference that names a definition of its kind can be followed
        obtain ⟨n, n', hfails⟩ := hfails
        obtain ⟨s', found, u, hgives⟩ := hinv.progress hres n
        rw [hgives] at hfails
        cases hfails
      · rcases List.mem_append.1 huri with huri | huri
        · exact (h.asked uri huri).append [ref]
        · obtain ⟨-, -, id, htarget⟩ := hasked uri (Option.mem_toList.1 huri)
          exact askedFor_last htarget
    · obtain ⟨h', hqueue'⟩ := h.step hinv hqueue hfollow
      exact Progress.run h' (hinv.step (followOne_agree.yields hfollow)) hqueue' hrun

variable (w) in
/-- What a search comes to, and the URIs that the loader is asked for. -/
def trace (fuel : Nat) : Except ResolveError Resolution × List String :=
  let (result, asked) := outcome (resolveWith w.noting w.strict fuel w.app) [] []
  (result.1, asked)

theorem asks_trace (w : Web) (fuel : Nat) :
    Asks (resolveWith w.noting w.strict fuel w.app) [] (w.trace fuel).1 (w.trace fuel).2 :=
  ⟨[], _, rfl⟩

variable (w) in
/-- A search asks for each document at most once and never for the description. If it succeeds, it
knows the description and the documents that it asked for, and each of these is the home of a
target. If it fails, the identifiers of the description are not unique, or it fails on a reference
and asked only for the documents of references up to this one. -/
structure LoadsOnce (result : Except ResolveError Resolution) (asked : List String) : Prop where
  nodup : asked.Nodup
  notMem : w.app.baseUri ∉ asked
  ok : ∀ r, result = .ok r → r.documents.map (·.1) = w.app.baseUri :: asked ∧
    ∀ uri ∈ asked, ∃ href t, r.targets.lookup href = some t ∧ t.place.document = uri
  error : ∀ e, result = .error e → e ≠ .exhausted →
    (∃ error, Index.ofApplication w.app = .error error ∧ e = .document error ∧ asked = []) ∨
    ∃ before last, w.FailsAt e before last ∧ ∀ uri ∈ asked, AskedFor (before ++ [last]) uri

theorem loadsOnce (w : Web) (fuel : Nat) : w.LoadsOnce (w.trace fuel).1 (w.trace fuel).2 := by
  have h := w.asks_trace fuel
  unfold resolveWith at h
  split at h
  · rename_i error hindex
    obtain ⟨hresult, hasked⟩ := asks_throw.1 h
    rw [hresult, hasked]
    refine ⟨List.nodup_nil,
      List.not_mem_nil, by simp, fun e he _ => Or.inl ⟨error, hindex, ?_, rfl⟩⟩
    exact (Except.error.inj he).symm
  · rename_i index hindex
    have hrun {r : Except ResolveError State} {asked : List String}
        (h : Asks (run w.noting w.strict fuel (w.start index) w.app.references) [] r asked) :=
      Progress.start.run (Invariant.start hindex) Queue.start h
    rcases h.bind with ⟨e, h, hresult⟩ | ⟨s, u, h, hdone⟩
    · obtain ⟨hnodup, -, hfails⟩ := hrun h
      rw [hresult]
      refine ⟨(List.nodup_cons.1 hnodup).2,
        (List.nodup_cons.1 hnodup).1, by simp, fun e' he hne => Or.inr ?_⟩
      exact hfails e' (by rw [← Except.error.inj he]) hne
    · obtain ⟨hnodup, hok, -⟩ := hrun h
      obtain ⟨hresult, rfl⟩ := asks_pure.1 hdone
      rw [hresult]
      refine ⟨(List.nodup_cons.1 hnodup).2, (List.nodup_cons.1 hnodup).1, fun r hr => ?_, by simp⟩
      obtain ⟨taken, hprogress⟩ := hok s rfl
      obtain rfl := Except.ok.inj hr
      refine ⟨?_, hprogress.homes⟩
      rw [← hprogress.documents]
      simp [State.resolution]

/-! ## Ends -/

theorem resolveWith_agree {fuel : Nat} :
    Agree (resolveWith w.noting w.strict fuel w.app)
      (resolveWith w.loading w.strict fuel w.app) := by
  unfold resolveWith
  split
  · exact .throw _
  · exact run_agree.bind fun _ => .refl_pure _

/-- Noting what a loader is asked for does not change what a search comes to. -/
theorem trace_result (w : Web) (fuel : Nat) :
    (w.trace fuel).1 = (Id.run ((resolveWith w.loading w.strict fuel w.app).run.run [])).1 :=
  congrArg Prod.fst (resolveWith_agree [] [])

/-- A search that comes to its end comes to the same end with more fuel. -/
theorem trace_mono {fuel fuel' : Nat} (hle : fuel ≤ fuel')
    (h : (w.trace fuel).1 ≠ .error .exhausted) : w.trace fuel' = w.trace fuel := by
  obtain ⟨k, rfl⟩ := Nat.exists_eq_add_of_le hle
  unfold trace resolveWith at h ⊢
  cases hindex : Index.ofApplication w.app with
  | error error => rfl
  | ok index =>
    simp only [hindex, outcome_bind] at h ⊢
    rcases hrun : outcome (run w.noting w.strict fuel ⟨w.app, [], [(w.app.baseUri, w.app, index)]⟩
      w.app.references) [] [] with ⟨⟨r, n⟩, u⟩
    have hne : r ≠ .error .exhausted := by
      rintro rfl
      rw [hrun] at h
      exact h rfl
    rw [outcome_run_mono hrun hne]

/-- No step says that the search took too many. -/
theorem followOne_not_exhausted {s : State} {ref : Reference} :
    Ensures (followOne w.loading w.strict s ref) (fun _ => True) (· ≠ .exhausted) := by
  have hcheck : ∀ {id : String} {found : Option DefinitionKind},
      Ensures (liftM (checkKind ref id found) : Following Id Unit) (fun _ => True)
        (· ≠ .exhausted) := by
    refine .lift (fun _ _ => trivial) fun error herror => ?_
    rintro rfl
    cases checkKind_isOwn herror
  unfold followOne
  split
  · split
    · exact .throw (by simp)
    · exact hcheck.bind fun _ _ => .pure trivial
  · refine Ensures.bind (Q := fun _ => True) ?_ fun _ _ => .pure trivial
    unfold lookUp
    split
    · exact .throw (by simp)
    · refine Ensures.bind (Q := fun _ => True) ?_ fun _ _ => ?_
      · unfold documentFor loading
        split
        · exact .pure trivial
        · cases w.loader with
          | none => exact .throw (by simp [loadFailure])
          | some l =>
            refine (Ensures.modify _).bind fun _ _ => ?_
            refine (Ensures.liftState (Q := fun _ => True) fun _ => trivial).bind fun loaded _ => ?_
            split
            · exact .throw (by cases ‹LoadError› <;> simp [loadFailure])
            · refine (readNoticed_ensures.mono (fun _ h => h) ?_).bind fun app _ => ?_
              · rintro _ ⟨error, rfl, -⟩
                simp
              · split
                · exact .throw (by simp)
                · exact .pure trivial
      · simp only
        split
        · exact .throw (by simp)
        · exact hcheck.bind fun _ _ => .pure trivial

variable (w) in
/-- The documents that the loader has are among finitely many; it is asked by URIs without a
fragment. -/
def ServesOnly (served : List String) : Prop :=
  ∀ l ∈ w.loader, ∀ uri root, '#' ∉ uri.toList → l uri = .ok root → uri ∈ served

/-- The references in the description and in finitely many documents are finitely many. -/
theorem exists_references (w : Web) (served : List String) :
    ∃ refs : List Reference, w.app.references ⊆ refs ∧
      ∀ uri ∈ served, ∀ d, w.IsDocument uri d → d.references ⊆ refs := by
  induction served with
  | nil => exact ⟨w.app.references, List.Subset.refl _, by simp⟩
  | cons uri served ih =>
    obtain ⟨refs, happ, hserved⟩ := ih
    by_cases hd : ∃ d, w.IsDocument uri d
    · obtain ⟨d, hd⟩ := hd
      refine ⟨refs ++ d.references, List.subset_append_of_subset_left _ happ, fun u hu d' hd' => ?_⟩
      rcases List.mem_cons.1 hu with rfl | hu
      · rw [isDocument_unique hd' hd]
        exact List.subset_append_right _ _
      · exact List.subset_append_of_subset_left _ (hserved u hu d' hd')
    · refine ⟨refs, happ, fun u hu d' hd' => ?_⟩
      rcases List.mem_cons.1 hu with rfl | hu
      · exact absurd ⟨d', hd'⟩ hd
      · exact hserved u hu d' hd'

/-- All reachable references stand in the description or in one of the documents that can be
loaded. -/
theorem exists_reachable {served : List String} (hserved : w.ServesOnly served) :
    ∃ refs : List Reference, ∀ ref, w.Reachable ref → ref ∈ refs := by
  obtain ⟨refs, happ, hrefs⟩ := w.exists_references served
  refine ⟨refs, fun ref href => ?_⟩
  cases href with
  | here h => exact happ h
  | @inside _ _ t _ hnames h =>
    obtain ⟨id, d, index, entry, htarget, hd, hindex, hentry, hdef, -⟩ := hnames
    rw [hdef] at h
    have hmem := (Application.entry_references (Index.mem_entries hindex hentry)).subset h
    by_cases hbase : t.place.document = w.app.baseUri
    · rw [IsDocument, if_pos hbase] at hd
      exact happ (hd ▸ hmem)
    · have hdocument := hd
      rw [IsDocument, if_neg hbase] at hd
      obtain ⟨l, root, notices, hl, hroot, -⟩ := hd
      exact hrefs _ (hserved l hl _ root (Library.hash_notMem_of_target htarget) hroot) d
        hdocument hmem

/-- With a loader that has finitely many documents a search comes to its end. -/
theorem exists_end {served : List String} (hserved : w.ServesOnly served) :
    ∃ enough, (w.trace enough).1 ≠ .error .exhausted ∧
      ∀ fuel, enough ≤ fuel → w.trace fuel = w.trace enough := by
  obtain ⟨refs, hrefs⟩ := exists_reachable hserved
  obtain ⟨bound, hbound⟩ := exists_bound (w := w) (refs.map (·.href))
  have hmem : ∀ ref, w.Reachable ref → ref.href ∈ refs.map (·.href) :=
    fun ref href => List.mem_map_of_mem (hrefs ref href)
  have henough : (w.trace (w.app.references.length + (refs.map (·.href)).length * bound)).1 ≠
      .error .exhausted := by
    intro hexhausted
    cases hindex : Index.ofApplication w.app with
    | error error =>
      unfold trace resolveWith at hexhausted
      rw [hindex] at hexhausted
      cases hexhausted
    | ok index =>
      have hfails := resolveWith_agree.fails (hexhausted ▸ w.asks_trace _)
      rcases fails_resolveWith_of (fun _ _ _ _ => followOne_not_exhausted) hindex
        hfails with hne | ⟨-, hfew⟩
      · exact hne rfl
      · exact absurd
          (hfew _ hmem bound fun ref t href hnames => hbound ref t (hmem ref href) hnames)
          (Nat.lt_irrefl _)
  exact ⟨_, henough, fun fuel hle => trace_mono hle henough⟩

end Web

namespace Library

variable {library : Option Library} {strict : Bool} {app : Application}

/-- With a library, a search may take the steps that it needs. -/
theorem resolve_not_exhausted : (resolve library strict app).1 ≠ .error .exhausted := by
  rcases hrun : resolve library strict app with ⟨r, n⟩
  rintro rfl
  cases hindex : Index.ofApplication app with
  | error error =>
    rw [resolve_eq] at hrun
    unfold resolveWith at hrun
    rw [hindex] at hrun
    cases hrun
  | ok index => exact fails_as_step hindex (fun _ _ _ _ => Web.followOne_not_exhausted) hrun rfl

theorem servesOnly (library : Option Library) (strict : Bool) (app : Application) :
    (web library strict app).ServesOnly ((library.getD ⟨[]⟩).documents.map (·.1)) := by
  intro l hl uri root hplain hroot
  obtain ⟨lib, rfl, rfl⟩ := Option.map_eq_some_iff.1 hl
  rw [load_eq hplain] at hroot
  refine mem_keys_of_lookup.2 ?_
  cases hlookup : lib.documents.lookup uri with
  | none =>
    rw [hlookup] at hroot
    cases hroot
  | some document => exact ⟨document, hlookup⟩

end Library

/-! ## Resolving -/

/-- Resolving asks its loader for each document at most once and never for the description; if it
succeeds, it knows these and no others, and each is the home of a target; if it fails, it asked only
for documents of references up to the failing one in breadth-first order. If the loader has finitely
many documents, resolving ends: from some count of steps on it comes to the same. With a library the
count that it may take is enough. -/
theorem resolve_loads_once (w : Web) :
    (∀ fuel, (w.trace fuel).1 =
      (Id.run ((resolveWith w.loading w.strict fuel w.app).run.run [])).1 ∧
      w.LoadsOnce (w.trace fuel).1 (w.trace fuel).2) ∧
    (∀ served, w.ServesOnly served → ∃ enough, (w.trace enough).1 ≠ .error .exhausted ∧
      ∀ fuel, enough ≤ fuel → w.trace fuel = w.trace enough) ∧
    ∀ library : Option Library, (resolve library w.strict w.app).1 ≠ .error .exhausted ∧
      (resolve library w.strict w.app).1 = ((Library.web library w.strict w.app).trace
        ((library.getD ⟨[]⟩).budget w.strict w.app)).1 := by
  refine ⟨fun fuel => ⟨w.trace_result fuel, w.loadsOnce fuel⟩,
    fun served => Web.exists_end, fun library => ?_⟩
  refine ⟨Library.resolve_not_exhausted, ?_⟩
  rw [Library.resolve_eq, Web.trace_result]
  rfl

/-- The ring asks for the one document of its library, once. -/
theorem resolve_loads_once_ring :
    ∃ app, Yields (readDescription "http://h/here" false ringRoot) app ∧
      (let w := Library.web (some ringLibrary) false app
      w.ServesOnly ["http://h/there"] ∧ ∃ enough, (w.trace enough).1.isOk = true ∧
        (w.trace enough).2 = ["http://h/there"] ∧ ∀ fuel,
          enough ≤ fuel → w.trace fuel = w.trace enough) := by
  obtain ⟨app, n, happ⟩ := exists_gives (x := readDescription "http://h/here" false ringRoot)
    (s := []) (by decide +kernel)
  have htrace : (Id.run
      ((readDescription "http://h/here" false ringRoot).run.run [])).1.toOption.map
      (fun app => let w := Library.web (some ringLibrary) false app
        ((w.trace 8).1.isOk, (w.trace 8).2)) = some (true, ["http://h/there"]) := by
    decide +kernel
  rw [happ] at htrace
  obtain ⟨hok, hasked⟩ := Prod.mk.inj (Option.some.inj htrace)
  have hserved := Library.servesOnly (some ringLibrary) false app
  obtain ⟨enough, hend, hsame⟩ :=
    (resolve_loads_once (Library.web (some ringLibrary) false app)).2.1 _ hserved
  have hne : ((Library.web (some ringLibrary) false app).trace 8).1 ≠ .error .exhausted := by
    intro h
    rw [h] at hok
    cases hok
  -- both counts of steps are enough
  have heq : (Library.web (some ringLibrary) false app).trace enough =
      (Library.web (some ringLibrary) false app).trace 8 := by
    rw [← hsame _ (Nat.le_max_left enough 8), Web.trace_mono (Nat.le_max_right enough 8) hne]
  exact ⟨app, happ.yields, hserved, enough, heq ▸ hok, heq ▸ hasked, hsame⟩

end Wadl
