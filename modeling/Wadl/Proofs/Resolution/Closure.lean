import Mathlib.Data.List.Nodup
import Wadl.Proofs.Document.Entries
import Wadl.Proofs.Runs
import Wadl.Proofs.Tables
import Wadl.Proofs.Uri.Parts
import Wadl.Resolution.Search

/-!
# What a search finds

A description, a way of loading and the strictness of reading span a `Web`: a reference names a
definition in a document of it (`Web.Names`), and is reachable if it stands in the description or in
a definition that a reachable reference names (`Web.Reachable`). A search takes references out of
its queue one after another; `Walk` does so in any order, `Search.run` in one. `Web.Invariant` is
what every step keeps (`Invariant.step`), and no step fails on a reference that names a definition
of its kind (`Invariant.progress`). At the end the table holds exactly the reachable references
(`Invariant.resolves`), and the search ends if these are finitely many (`Invariant.run_gives`).
-/

namespace Wadl

open Search

/-! ## Webs -/

/-- A way of loading in which the document depends on the URI alone. -/
abbrev Web.Loader := String → Except LoadError Xml.Node

/-- The search's way of loading for a loader, which gives no notices. -/
def Web.Loader.loading (l : Web.Loader) : Loading Id := fun uri => pure (l uri)

/-- What a search can see: a description, and the documents that can be loaded, if any. -/
structure Web where
  app : Application
  loader : Option Web.Loader
  strict : Bool

namespace Web

variable (w : Web)

/-- The search's way of loading. -/
def loading : Option (Loading Id) := w.loader.map Loader.loading

/-- The document at a URI: the description itself, or what is loaded there and can be read. -/
def IsDocument (uri : String) (document : Application) : Prop :=
  if uri = w.app.baseUri then document = w.app
  else ∃ l root notices, w.loader = some l ∧ l uri = .ok root ∧
    Gives (readDescription uri w.strict root) [] document notices

/-- A reference names the definition that the index of its document has for its identifier. -/
def Names (ref : Reference) (t : Target) : Prop :=
  ∃ id document index entry, ref.target = .ok (t.place.document, id) ∧
    w.IsDocument t.place.document document ∧ Index.ofApplication document = .ok index ∧
    index.get? id = some entry ∧ t.definition = entry.definition ∧ t.place.steps = entry.steps

/-- A reference names a definition of the kind that it wants. -/
def Resolvable (ref : Reference) : Prop := ∃ t, w.Names ref t ∧ t.kind? = some ref.kind

/-- A reference stands in the description, or in the definition that a reachable reference names. -/
inductive Reachable : Reference → Prop where
  | here {ref : Reference} (h : ref ∈ w.app.references) : Reachable ref
  | inside {outer ref : Reference} {t : Target} (houter : Reachable outer)
      (hnames : w.Names outer t) (h : ref ∈ t.definition.references) : Reachable ref

/-- A resolution holds what the reachable references name, and nothing else. -/
structure Resolves (r : Resolution) : Prop where
  app_eq : r.app = w.app
  keys_nodup : (r.targets.map (·.1)).Nodup
  mem_keys : ∀ href, href ∈ r.targets.map (·.1) ↔ ∃ ref, w.Reachable ref ∧ ref.href = href
  lookup : ∀ ref, w.Reachable ref → ∃ t document,
    r.targets.lookup ref.href = some t ∧ w.Names ref t ∧
    t.kind? = some ref.kind ∧ r.documents.lookup t.place.document = some document ∧
    w.IsDocument t.place.document document

variable {w}

theorem isDocument_unique {uri : String} {d d' : Application} (h : w.IsDocument uri d)
    (h' : w.IsDocument uri d') : d = d' := by
  unfold IsDocument at h h'
  split_ifs at h h' with hbase
  · rw [h, h']
  · obtain ⟨l, root, notices, hl, hroot, hgives⟩ := h
    obtain ⟨l', root', notices', hl', hroot', hgives'⟩ := h'
    obtain rfl := Option.some.inj (hl.symm.trans hl')
    obtain rfl := Except.ok.inj (hroot.symm.trans hroot')
    exact Except.ok.inj (Prod.mk.inj (hgives.symm.trans hgives')).1

/-- What a reference names depends on its URI alone. -/
theorem names_unique {ref ref' : Reference} {t t' : Target} (hhref : ref.href = ref'.href)
    (h : w.Names ref t) (h' : w.Names ref' t') : t = t' := by
  obtain ⟨id, d, index, entry, htarget, hd, hindex, hentry, hdef, hsteps⟩ := h
  obtain ⟨id', d', index', entry', htarget', hd', hindex', hentry', hdef', hsteps'⟩ := h'
  rw [Reference.target, hhref, ← Reference.target, htarget'] at htarget
  obtain ⟨huri, rfl⟩ := Prod.mk.inj (Except.ok.inj htarget)
  rw [← huri] at hd
  obtain rfl := isDocument_unique hd hd'
  obtain rfl := Except.ok.inj (hindex.symm.trans hindex')
  obtain rfl := Option.some.inj (hentry.symm.trans hentry')
  cases t with | mk definition place => cases t' with | mk definition' place' =>
  cases place with | mk uri steps => cases place' with | mk uri' steps' =>
  simp_all

/-- References with one URI name the same. -/
theorem Names.of_href {ref ref' : Reference} {t : Target} (h : w.Names ref t)
    (hhref : ref.href = ref'.href) : w.Names ref' t := by
  obtain ⟨id, document, index, entry, htarget, hrest⟩ := h
  rw [Reference.target, hhref] at htarget
  exact ⟨id, document, index, entry, htarget, hrest⟩

/-! ## Documents -/

variable (w) in
/-- The documents that a search knows are documents of the web, the description itself among
them. -/
structure Knows (documents : List (String × Application × Index)) : Prop where
  self : ∃ index, Index.ofApplication w.app = .ok index ∧
    documents.lookup w.app.baseUri = some (w.app, index)
  each : ∀ uri d index, documents.lookup uri = some (d, index) →
    w.IsDocument uri d ∧ Index.ofApplication d = .ok index

theorem Knows.start {index : Index} (h : Index.ofApplication w.app = .ok index) :
    w.Knows [(w.app.baseUri, w.app, index)] := by
  refine ⟨⟨index, h, by simp⟩, fun uri d index' hlookup => ?_⟩
  rw [List.lookup_cons] at hlookup
  split at hlookup
  · rename_i huri
    obtain ⟨rfl, rfl⟩ := Prod.mk.inj (Option.some.inj hlookup)
    exact ⟨by rw [IsDocument, if_pos (by simpa using huri)], h⟩
  · cases hlookup

/-- A document that is read is read with the same result wherever the search has come to. -/
theorem gives_readNoticed {uri : String} {strict : Bool} {root : Xml.Node} {s t : List Notice}
    {d : Application} :
    Gives (readNoticed (m := Id) uri strict root) s d t ↔
      ∃ notices, Gives (readDescription uri strict root) [] d notices ∧ s ++ notices = t := by
  unfold readNoticed
  rcases h : (readDescription uri strict root).run.run [] with ⟨result, notices⟩
  have hgives : ∀ d' notices', Gives (readDescription uri strict root) [] d' notices' ↔
      result = .ok d' ∧ notices = notices' := by
    intro d' notices'
    show (readDescription uri strict root).run.run [] = _ ↔ _
    rw [h, Prod.mk.injEq]
  rw [gives_bind]
  constructor
  · rintro ⟨_, u, hmodify, h⟩
    obtain rfl := gives_modify.1 hmodify
    cases result with
    | error e => exact absurd h gives_throw
    | ok d' =>
      obtain ⟨rfl, rfl⟩ := gives_pure.1 h
      exact ⟨notices, (hgives _ _).2 ⟨rfl, rfl⟩, rfl⟩
  · rintro ⟨notices', h, rfl⟩
    obtain ⟨rfl, rfl⟩ := (hgives _ _).1 h
    exact ⟨⟨⟩, s ++ notices, gives_modify.2 rfl, gives_pure.2 ⟨rfl, rfl⟩⟩

theorem Knows.ne_base {documents : List (String × Application × Index)} {uri : String}
    (h : w.Knows documents) (hnew : documents.lookup uri = none) : uri ≠ w.app.baseUri := by
  rintro rfl
  obtain ⟨index, -, hself⟩ := h.self
  rw [hself] at hnew
  cases hnew

theorem Knows.append {documents : List (String × Application × Index)} {uri : String}
    {d : Application} {index : Index} (h : w.Knows documents) (hd : w.IsDocument uri d)
    (hindex : Index.ofApplication d = .ok index) :
    w.Knows (documents ++ [(uri, d, index)]) := by
  obtain ⟨⟨self, hself, hlookup⟩, heach⟩ := h
  refine ⟨⟨self, hself, by rw [List.lookup_append, hlookup, Option.some_or]⟩, ?_⟩
  intro u d' index' hu
  rw [List.lookup_append, Option.or_eq_some_iff] at hu
  rcases hu with hu | ⟨-, hu⟩
  · exact heach u d' index' hu
  · rw [List.lookup_cons] at hu
    split at hu
    · rename_i huri
      obtain ⟨rfl, rfl⟩ := Prod.mk.inj (Option.some.inj hu)
      rw [eq_of_beq huri]
      exact ⟨hd, hindex⟩
    · cases hu

/-- The identifiers of a document are those of a document of the web, which the search then
knows. -/
theorem documentFor_yields {s s' : State} {uri : String} {ref : Reference} {index : Index}
    (hs : w.Knows s.documents)
    (h : Yields (documentFor w.loading w.strict s uri ref) (index, s')) :
    s'.app = s.app ∧ s'.targets = s.targets ∧ w.Knows s'.documents ∧
      (∃ d, s'.documents.lookup uri = some (d, index)) ∧
      ∀ u x, s.documents.lookup u = some x → s'.documents.lookup u = some x := by
  unfold documentFor at h
  split at h
  · -- the document is known
    rename_i d index' hlookup
    obtain ⟨rfl, rfl⟩ := Prod.mk.inj h.pure
    exact ⟨rfl, rfl, hs, ⟨d, hlookup⟩, fun u x hu => hu⟩
  · rename_i hnew
    unfold loading at h
    cases hl : w.loader with
    | none =>
      rw [hl] at h
      exact absurd h not_yields_throw
    | some l =>
      rw [hl] at h
      obtain ⟨_, -, h⟩ := h.bind
      obtain ⟨loaded, ⟨n, n', hloaded⟩, h⟩ := h.bind
      have hl_uri : l uri = loaded := (Prod.mk.inj (gives_liftState.1 hloaded)).1
      split at h
      · exact absurd h not_yields_throw
      · rename_i root
        obtain ⟨d, ⟨m, m', hread⟩, h⟩ := h.bind
        obtain ⟨notices, hread, -⟩ := gives_readNoticed.1 hread
        split at h
        · exact absurd h not_yields_throw
        · rename_i index' hindex
          obtain ⟨rfl, rfl⟩ := Prod.mk.inj h.pure
          have hd : w.IsDocument uri d := by
            rw [IsDocument, if_neg (hs.ne_base hnew)]
            exact ⟨l, root, notices, hl, hl_uri, hread⟩
          refine ⟨rfl, rfl, hs.append hd hindex, ⟨d, ?_⟩, fun u x hu => ?_⟩
          · rw [List.lookup_append, hnew, Option.none_or, List.lookup_cons_self]
          · rw [List.lookup_append, hu, Option.some_or]

/-- The identifiers of each document of the web can be had. -/
theorem documentFor_gives {s : State} {uri : String} {d : Application} {index : Index}
    {ref : Reference} (hs : w.Knows s.documents) (hd : w.IsDocument uri d)
    (hindex : Index.ofApplication d = .ok index) (n : List Notice) :
    ∃ s' n', Gives (documentFor w.loading w.strict s uri ref) n (index, s') n' := by
  unfold documentFor
  split
  · rename_i d' index' hlookup
    obtain ⟨hd', hindex'⟩ := hs.each _ _ _ hlookup
    obtain rfl := isDocument_unique hd hd'
    obtain rfl := Except.ok.inj (hindex.symm.trans hindex')
    exact ⟨s, n, gives_pure.2 ⟨rfl, rfl⟩⟩
  · rename_i hnew
    rw [IsDocument, if_neg (hs.ne_base hnew)] at hd
    obtain ⟨l, root, notices, hl, hroot, hread⟩ := hd
    unfold loading
    rw [hl]
    refine ⟨{ s with documents := s.documents ++ [(uri, d, index)] },
      n ++ [.loadingDocument uri] ++ notices, ?_⟩
    refine gives_bind.2 ⟨⟨⟩, _, gives_modify.2 rfl, ?_⟩
    refine gives_bind.2 ⟨l uri, _, gives_liftState.2 rfl, ?_⟩
    rw [hroot]
    refine gives_bind.2 ⟨d, _, gives_readNoticed.2 ⟨notices, hread, rfl⟩, ?_⟩
    simp only [hindex]
    exact gives_pure.2 ⟨rfl, rfl⟩

/-! ## Steps -/

theorem checkKind_ok {ref : Reference} {id : String} {found : Option DefinitionKind} {u : Unit} :
    checkKind ref id found = .ok u ↔ found = some ref.kind := by
  unfold checkKind
  split_ifs with h <;> simp [h]

/-- What following a reference does: either what it names is known and of its kind, or it is new, of
its kind, and noted. -/
theorem followOne_yields {s s' : State} {ref : Reference} {found : List Reference}
    (hs : w.Knows s.documents) (h : Yields (followOne w.loading w.strict s ref) (s', found)) :
    (∃ t, s.targets.lookup ref.href = some t ∧ t.kind? = some ref.kind ∧ s' = s ∧ found = []) ∨
    (s.targets.lookup ref.href = none ∧ ∃ t, w.Names ref t ∧ t.kind? = some ref.kind ∧
      found = t.definition.references ∧ s'.app = s.app ∧
      s'.targets = s.targets ++ [(ref.href, t)] ∧ w.Knows s'.documents ∧
      (s'.documents.lookup t.place.document).isSome ∧
      ∀ u x, s.documents.lookup u = some x → s'.documents.lookup u = some x) := by
  unfold followOne at h
  split at h
  · rename_i known hknown
    split at h
    · exact absurd h not_yields_throw
    · obtain ⟨_, hkind, h⟩ := h.bind
      obtain ⟨rfl, rfl⟩ := Prod.mk.inj h.pure
      exact Or.inl ⟨known, hknown, checkKind_ok.1 hkind.lift, rfl, rfl⟩
  · rename_i hnew
    obtain ⟨⟨t, s₁⟩, hlook, h⟩ := h.bind
    obtain ⟨rfl, rfl⟩ := Prod.mk.inj h.pure
    refine Or.inr ⟨hnew, t, ?_⟩
    unfold lookUp at hlook
    split at hlook
    · exact absurd hlook not_yields_throw
    · rename_i uri id htarget
      obtain ⟨⟨index, s₂⟩, hdoc, hlook⟩ := hlook.bind
      obtain ⟨happ, htargets, hknows, ⟨d, hd⟩, hkeep⟩ := documentFor_yields hs hdoc
      simp only at hlook
      split at hlook
      · exact absurd hlook not_yields_throw
      · rename_i entry hentry
        obtain ⟨_, hkind, hlook⟩ := hlook.bind
        obtain ⟨rfl, rfl⟩ := Prod.mk.inj hlook.pure
        obtain ⟨hisDoc, hindex⟩ := hknows.each _ _ _ hd
        refine ⟨⟨id, d, index, entry, htarget, hisDoc, hindex, hentry, rfl, rfl⟩,
          checkKind_ok.1 hkind.lift, rfl, happ, ?_, hknows, ?_, hkeep⟩
        · rw [htargets]
        · rw [hd]
          rfl

/-- A reference that names a definition of its kind can be followed. -/
theorem followOne_gives {s : State} {ref : Reference} {t : Target} (hs : w.Knows s.documents)
    (hnames : w.Names ref t) (hkind : t.kind? = some ref.kind)
    (hknown : ∀ known, s.targets.lookup ref.href = some known → known = t) (n : List Notice) :
    ∃ s' found n', Gives (followOne w.loading w.strict s ref) n (s', found) n' := by
  obtain ⟨id, d, index, entry, htarget, hd, hindex, hentry, hdef, -⟩ := hnames
  unfold followOne
  split
  · rename_i known hlookup
    obtain rfl := hknown known hlookup
    rw [htarget]
    exact ⟨s, [], n, gives_bind.2 ⟨⟨⟩, n, gives_lift.2 ⟨checkKind_ok.2 hkind, rfl⟩,
      gives_pure.2 ⟨rfl, rfl⟩⟩⟩
  · obtain ⟨s', n', hdoc⟩ := documentFor_gives hs hd hindex n
    have hentry_kind : entry.kind? = some ref.kind := by
      rw [Entry.kind?, ← hdef]
      exact hkind
    have hlook : Gives (lookUp w.loading w.strict s ref) n
        (⟨entry.definition, ⟨t.place.document, entry.steps⟩⟩, s') n' := by
      unfold lookUp
      rw [htarget]
      refine gives_bind.2 ⟨_, _, hdoc, ?_⟩
      simp only [hentry]
      exact gives_bind.2 ⟨⟨⟩, n', gives_lift.2 ⟨checkKind_ok.2 hentry_kind, rfl⟩,
        gives_pure.2 ⟨rfl, rfl⟩⟩
    exact ⟨_, _, n', gives_bind.2 ⟨_, _, hlook, gives_pure.2 ⟨rfl, rfl⟩⟩⟩

/-! ## Runs -/

/-- What a reference names is in a table and of its kind. -/
def Done (targets : List (String × Target)) (ref : Reference) : Prop :=
  ∃ t, targets.lookup ref.href = some t ∧ t.kind? = some ref.kind

theorem Done.append {targets : List (String × Target)} {ref : Reference} (h : Done targets ref)
    (x : String × Target) : Done (targets ++ [x]) ref := by
  obtain ⟨t, hlookup, hkind⟩ := h
  exact ⟨t, by rw [List.lookup_append, hlookup, Option.some_or], hkind⟩

/-- What is found in a table with a new entry was found before, or is that entry. -/
theorem lookup_of_append_singleton {targets : List (String × Target)} {x : String × Target}
    {href : String} {t : Target} (h : (targets ++ [x]).lookup href = some t) :
    targets.lookup href = some t ∨ (href = x.1 ∧ t = x.2) := by
  rw [List.lookup_append, Option.or_eq_some_iff] at h
  rcases h with h | ⟨-, h⟩
  · exact Or.inl h
  · rw [List.lookup_cons] at h
    split at h
    · rename_i heq
      exact Or.inr ⟨eq_of_beq heq, (Option.some.inj h).symm⟩
    · cases h

variable (w) in
/-- What holds throughout a search: the table holds what some reachable references name, those in
the queue are reachable, and the table and the queue together have all that stands in the
description or in the table. -/
structure Invariant (s : State) (queue : List Reference) : Prop where
  app_eq : s.app = w.app
  knows : w.Knows s.documents
  keys_nodup : (s.targets.map (·.1)).Nodup
  sound : ∀ href t, s.targets.lookup href = some t → ∃ ref, w.Reachable ref ∧ ref.href = href ∧
    w.Names ref t ∧ (s.documents.lookup t.place.document).isSome
  queued : ∀ ref ∈ queue, w.Reachable ref
  here : ∀ ref ∈ w.app.references, ref ∈ queue ∨ Done s.targets ref
  closed : ∀ href t, s.targets.lookup href = some t →
    ∀ ref ∈ t.definition.references, ref ∈ queue ∨ Done s.targets ref

variable (w) in
/-- The search before its first step. -/
def start (index : Index) : State := ⟨w.app, [], [(w.app.baseUri, w.app, index)]⟩

namespace Invariant

variable {s s' : State} {queue queue' found : List Reference} {ref : Reference}

theorem start {index : Index} (h : Index.ofApplication w.app = .ok index) :
    w.Invariant (w.start index) w.app.references where
  app_eq := rfl
  knows := Knows.start h
  keys_nodup := List.nodup_nil
  sound _ _ ht := by cases ht
  queued _ href := .here href
  here _ href := Or.inl href
  closed _ _ ht := by cases ht

theorem perm (h : w.Invariant s queue) (hperm : queue.Perm queue') : w.Invariant s queue' :=
  { h with
    queued := fun ref href => h.queued ref (hperm.mem_iff.2 href)
    here := fun ref href => (h.here ref href).imp_left hperm.mem_iff.1
    closed := fun href t ht ref href' => (h.closed href t ht ref href').imp_left hperm.mem_iff.1 }

/-- A reference that is done leaves the queue. -/
theorem step_done (h : w.Invariant s (ref :: queue)) (hdone : Done s.targets ref) :
    w.Invariant s queue := by
  have hout : ∀ r, r ∈ ref :: queue ∨ Done s.targets r → r ∈ queue ∨ Done s.targets r := by
    rintro r (hr | hr)
    · rcases List.mem_cons.1 hr with rfl | hr
      · exact Or.inr hdone
      · exact Or.inl hr
    · exact Or.inr hr
  exact { h with
    queued := fun r hr => h.queued r (List.mem_cons_of_mem _ hr)
    here := fun r hr => hout r (h.here r hr)
    closed := fun href t ht r hr => hout r (h.closed href t ht r hr) }

/-- The references of a definition that is new come into the queue. -/
theorem step_new {t : Target} (h : w.Invariant s (ref :: queue))
    (hnew : s.targets.lookup ref.href = none) (hnames : w.Names ref t)
    (hkind : t.kind? = some ref.kind) (happ : s'.app = s.app)
    (htargets : s'.targets = s.targets ++ [(ref.href, t)]) (hknows : w.Knows s'.documents)
    (hloaded : (s'.documents.lookup t.place.document).isSome)
    (hkeep : ∀ u x, s.documents.lookup u = some x → s'.documents.lookup u = some x) :
    w.Invariant s' (queue ++ t.definition.references) := by
  have hreach : w.Reachable ref := h.queued ref List.mem_cons_self
  have hlookup : ∀ href t', s'.targets.lookup href = some t' →
      s.targets.lookup href = some t' ∨ (href = ref.href ∧ t' = t) := by
    rw [htargets]
    exact fun href t' => lookup_of_append_singleton
  have hdone : Done s'.targets ref :=
    ⟨t, by rw [htargets, List.lookup_append, hnew, Option.none_or, List.lookup_cons_self], hkind⟩
  have hout : ∀ r, r ∈ ref :: queue ∨ Done s.targets r →
      r ∈ queue ++ t.definition.references ∨ Done s'.targets r := by
    rintro r (hr | hr)
    · rcases List.mem_cons.1 hr with rfl | hr
      · exact Or.inr hdone
      · exact Or.inl (List.mem_append_left _ hr)
    · rw [htargets]
      exact Or.inr (hr.append _)
  have hfresh : ∀ x ∈ s.targets.map (·.1), x ≠ ref.href := by
    rintro x hmem rfl
    obtain ⟨t', ht'⟩ := mem_keys_of_lookup.1 hmem
    rw [ht'] at hnew
    cases hnew
  refine ⟨happ.trans h.app_eq, hknows, ?_, ?_, ?_, fun r hr => hout r (h.here r hr), ?_⟩
  · rw [htargets, List.map_append, List.nodup_append]
    refine ⟨h.keys_nodup, List.nodup_singleton _, fun x hx y hy => ?_⟩
    rw [List.mem_singleton.1 hy]
    exact hfresh x hx
  · intro href t' ht'
    rcases hlookup href t' ht' with ht' | ⟨rfl, rfl⟩
    · obtain ⟨r, hr, hhref, hnames', hsome⟩ := h.sound href t' ht'
      obtain ⟨x, hx⟩ := Option.isSome_iff_exists.1 hsome
      exact ⟨r, hr, hhref, hnames', by rw [hkeep _ _ hx]; rfl⟩
    · exact ⟨ref, hreach, rfl, hnames, hloaded⟩
  · intro r hr
    rcases List.mem_append.1 hr with hr | hr
    · exact h.queued r (List.mem_cons_of_mem _ hr)
    · exact .inside hreach hnames hr
  · intro href t' ht' r hr
    rcases hlookup href t' ht' with ht' | ⟨-, rfl⟩
    · exact hout r (h.closed href t' ht' r hr)
    · exact Or.inl (List.mem_append_right _ hr)

/-- Every step keeps the invariant. -/
theorem step (h : w.Invariant s (ref :: queue))
    (hfollow : Yields (followOne w.loading w.strict s ref) (s', found)) :
    w.Invariant s' (queue ++ found) := by
  rcases followOne_yields h.knows hfollow with
    ⟨t, hknown, hkind, rfl, rfl⟩ |
    ⟨hnew, t, hnames, hkind, rfl, happ, htargets, hknows, hloaded, hkeep⟩
  · rw [List.append_nil]
    exact h.step_done ⟨t, hknown, hkind⟩
  · exact h.step_new hnew hnames hkind happ htargets hknows hloaded hkeep

/-- No step fails on a reference that names a definition of its kind. -/
theorem progress (h : w.Invariant s (ref :: queue)) (hres : w.Resolvable ref) (n : List Notice) :
    ∃ s' found n', Gives (followOne w.loading w.strict s ref) n (s', found) n' := by
  obtain ⟨t, hnames, hkind⟩ := hres
  refine followOne_gives h.knows hnames hkind (fun known hknown => ?_) n
  obtain ⟨r, -, hhref, hnames', -⟩ := h.sound _ _ hknown
  exact names_unique hhref hnames' hnames

theorem keys_reachable (h : w.Invariant s queue) {href : String}
    (hmem : href ∈ s.targets.map (·.1)) : ∃ ref, w.Reachable ref ∧ ref.href = href := by
  obtain ⟨t, ht⟩ := mem_keys_of_lookup.1 hmem
  obtain ⟨r, hr, hhref, -⟩ := h.sound href t ht
  exact ⟨r, hr, hhref⟩

theorem lookup_documents {documents : List (String × Application × Index)} {uri : String} :
    (documents.map fun (uri, app, _) => (uri, app)).lookup uri =
      (documents.lookup uri).map (·.1) := by
  induction documents with
  | nil => rfl
  | cons x documents ih =>
    rw [List.map_cons, List.lookup_cons, List.lookup_cons, ih]
    split <;> rfl

/-- When the queue is empty, the table holds what all reachable references name. -/
theorem resolves (h : w.Invariant s []) : w.Resolves s.resolution := by
  have hdone : ∀ ref, w.Reachable ref →
      ∃ t, s.targets.lookup ref.href = some t ∧ w.Names ref t ∧ t.kind? = some ref.kind := by
    have hnames : ∀ ref, Done s.targets ref →
        ∃ t, s.targets.lookup ref.href = some t ∧ w.Names ref t ∧ t.kind? = some ref.kind := by
      rintro ref ⟨t, hlookup, hkind⟩
      obtain ⟨r, -, hhref, hnames, -⟩ := h.sound _ _ hlookup
      exact ⟨t, hlookup, hnames.of_href hhref, hkind⟩
    intro ref href
    induction href with
    | here hmem => exact hnames _ ((h.here _ hmem).resolve_left List.not_mem_nil)
    | inside houter hnamed hmem ih =>
      obtain ⟨t, hlookup, hnamed', -⟩ := ih
      obtain rfl := names_unique rfl hnamed hnamed'
      exact hnames _ ((h.closed _ _ hlookup _ hmem).resolve_left List.not_mem_nil)
  refine ⟨h.app_eq, h.keys_nodup, fun href => ⟨h.keys_reachable, ?_⟩, fun ref href => ?_⟩
  · rintro ⟨ref, href, rfl⟩
    obtain ⟨t, hlookup, -⟩ := hdone ref href
    exact mem_keys_of_lookup.2 ⟨t, hlookup⟩
  · obtain ⟨t, hlookup, hnames, hkind⟩ := hdone ref href
    obtain ⟨-, -, -, -, hsome⟩ := h.sound _ _ hlookup
    obtain ⟨⟨d, index⟩, hd⟩ := Option.isSome_iff_exists.1 hsome
    refine ⟨t, d, hlookup, hnames, hkind, ?_, (h.knows.each _ _ _ hd).1⟩
    show List.lookup _ (s.documents.map fun (uri, app, _) => (uri, app)) = some d
    rw [lookup_documents, hd]
    rfl

end Invariant

variable (w) in
/-- A search that takes any reference of its queue next, from a state and a queue to its end. -/
inductive Walk : State → List Reference → State → Prop where
  | done {s : State} : Walk s [] s
  | step {s s' t : State} {queue rest found : List Reference} {ref : Reference}
      (hperm : queue.Perm (ref :: rest))
      (hfollow : Yields (followOne w.loading w.strict s ref) (s', found))
      (hwalk : Walk s' (rest ++ found) t) : Walk s queue t

theorem Invariant.walk {s t : State} {queue : List Reference} (h : w.Invariant s queue)
    (hwalk : w.Walk s queue t) : w.Invariant t [] := by
  induction hwalk with
  | done => exact h
  | step hperm hfollow _ ih => exact ih ((h.perm hperm).step hfollow)

/-- A search in the order of its queue is a walk. -/
theorem walk_of_run {fuel : Nat} {s t : State} {queue : List Reference} {n n' : List Notice}
    (h : Gives (run w.loading w.strict fuel s queue) n t n') : w.Walk s queue t := by
  induction fuel generalizing s queue n with
  | zero =>
    cases queue with
    | nil =>
      rw [run, gives_pure] at h
      rw [h.1]
      exact .done
    | cons ref rest => exact absurd h gives_throw
  | succ fuel ih =>
    cases queue with
    | nil =>
      rw [run, gives_pure] at h
      rw [h.1]
      exact .done
    | cons ref rest =>
      rw [run] at h
      obtain ⟨⟨s', found⟩, u, hfollow, hrun⟩ := gives_bind.1 h
      exact .step (.refl _) hfollow.yields (ih hrun)

section Ends

variable {hrefs : List String} {bound : Nat}

/-- A step on a known reference takes it out of the queue, and a step on a new one adds at most
`bound` references. -/
theorem Invariant.steps_le (hfinite : ∀ ref, w.Reachable ref → ref.href ∈ hrefs)
    (hbound : ∀ ref t, w.Reachable ref → w.Names ref t → t.definition.references.length ≤ bound)
    {fuel : Nat} {s s' : State} {ref : Reference} {queue found : List Reference}
    (h : w.Invariant s (ref :: queue))
    (hfollow : Yields (followOne w.loading w.strict s ref) (s', found))
    (hfuel : (ref :: queue).length + (hrefs.length - s.targets.length) * bound ≤ fuel + 1) :
    (queue ++ found).length + (hrefs.length - s'.targets.length) * bound ≤ fuel := by
  have hs' := h.step hfollow
  rw [List.length_cons] at hfuel
  rw [List.length_append]
  rcases followOne_yields h.knows hfollow with ⟨-, -, -, rfl, rfl⟩ | ⟨-, t, hnames, -,
    rfl, -, htargets, -⟩
  · rw [List.length_nil]
    omega
  · have hlen : s'.targets.length ≤ hrefs.length := by
      rw [← List.length_map (f := Prod.fst)]
      refine hs'.keys_nodup.length_le_of_subset fun href hmem => ?_
      obtain ⟨r, hr, rfl⟩ := hs'.keys_reachable hmem
      exact hfinite r hr
    have hfound := hbound ref t (h.queued ref List.mem_cons_self) hnames
    rw [htargets, List.length_append, List.length_singleton] at hlen ⊢
    obtain ⟨k, hk⟩ : ∃ k, hrefs.length - s.targets.length = k + 1 :=
      ⟨hrefs.length - s.targets.length - 1, by omega⟩
    have hk' : hrefs.length - (s.targets.length + 1) = k := by omega
    rw [hk, Nat.succ_mul] at hfuel
    rw [hk']
    omega

/-- A search ends if the reachable references have finitely many URIs. -/
theorem Invariant.run_gives (hres : ∀ ref, w.Reachable ref → w.Resolvable ref)
    (hfinite : ∀ ref, w.Reachable ref → ref.href ∈ hrefs)
    (hbound : ∀ ref t, w.Reachable ref → w.Names ref t → t.definition.references.length ≤ bound) :
    ∀ {fuel : Nat} {s : State} {queue : List Reference} (n : List Notice), w.Invariant s queue →
      queue.length + (hrefs.length - s.targets.length) * bound ≤ fuel →
      ∃ t n', Gives (run w.loading w.strict fuel s queue) n t n'
  | fuel, s, [], n, _, _ => ⟨s, n, by
      cases fuel <;> exact gives_pure.2 ⟨rfl, rfl⟩⟩
  | 0, s, ref :: queue, n, _, hfuel => by
      rw [List.length_cons] at hfuel
      omega
  | fuel + 1, s, ref :: queue, n, h, hfuel => by
      obtain ⟨s', found, u, hfollow⟩ := h.progress (hres ref (h.queued ref List.mem_cons_self)) n
      obtain ⟨t, n', hrun⟩ := run_gives hres hfinite hbound u (h.step hfollow.yields)
        (h.steps_le hfinite hbound hfollow.yields hfuel)
      exact ⟨t, n', gives_bind.2 ⟨(s', found), u, hfollow, hrun⟩⟩

end Ends

/-! ## Resolutions -/

theorem gives_resolveWith {fuel : Nat} {r : Resolution} {n n' : List Notice} :
    Gives (resolveWith w.loading w.strict fuel w.app) n r n' ↔
      ∃ index t, Index.ofApplication w.app = .ok index ∧
        Gives (run w.loading w.strict fuel (w.start index) w.app.references) n t n' ∧
        t.resolution = r := by
  unfold resolveWith
  cases hindex : Index.ofApplication w.app with
  | error e =>
    simp only [reduceCtorEq, false_and, exists_false, iff_false]
    exact gives_throw
  | ok index =>
    constructor
    · intro h
      obtain ⟨t, u, hrun, h⟩ := gives_bind.1 h
      obtain ⟨rfl, rfl⟩ := gives_pure.1 h
      exact ⟨index, t, rfl, hrun, rfl⟩
    · rintro ⟨index', t, heq, hrun, rfl⟩
      obtain rfl := Except.ok.inj heq
      exact gives_bind.2 ⟨t, n', hrun, gives_pure.2 ⟨rfl, rfl⟩⟩

theorem Resolves.resolvable {r : Resolution} (h : w.Resolves r) {ref : Reference}
    (href : w.Reachable ref) : w.Resolvable ref := by
  obtain ⟨t, -, -, hnames, hkind, -⟩ := h.lookup ref href
  exact ⟨t, hnames, hkind⟩

/-- A web has one table. -/
theorem Resolves.lookup_eq {r r' : Resolution} (h : w.Resolves r) (h' : w.Resolves r')
    (href : String) : r.targets.lookup href = r'.targets.lookup href := by
  by_cases hmem : href ∈ r.targets.map (·.1)
  · obtain ⟨ref, href', rfl⟩ := (h.mem_keys href).1 hmem
    obtain ⟨t, -, ht, hnames, -⟩ := h.lookup ref href'
    obtain ⟨t', -, ht', hnames', -⟩ := h'.lookup ref href'
    rw [ht, ht', names_unique rfl hnames hnames']
  · have hmem' : href ∉ r'.targets.map (·.1) := by
      rwa [h'.mem_keys, ← h.mem_keys]
    rw [mem_keys_of_lookup] at hmem hmem'
    rw [Option.eq_none_iff_forall_ne_some.2 fun t ht => hmem ⟨t, ht⟩,
      Option.eq_none_iff_forall_ne_some.2 fun t ht => hmem' ⟨t, ht⟩]

theorem resolves_of_gives {fuel : Nat} {r : Resolution} {n n' : List Notice}
    (h : Gives (resolveWith w.loading w.strict fuel w.app) n r n') : w.Resolves r := by
  obtain ⟨index, t, hindex, hrun, rfl⟩ := gives_resolveWith.1 h
  exact ((Invariant.start hindex).walk (walk_of_run hrun)).resolves

theorem exists_bound (hrefs : List String) :
    ∃ bound, ∀ ref t, ref.href ∈ hrefs → w.Names ref t →
      t.definition.references.length ≤ bound := by
  induction hrefs with
  | nil => exact ⟨0, fun ref t h => by cases h⟩
  | cons href hrefs ih =>
    obtain ⟨bound, hbound⟩ := ih
    by_cases hnamed : ∃ ref t, ref.href = href ∧ w.Names ref t
    · obtain ⟨ref, t, hhref, hnames⟩ := hnamed
      refine ⟨max bound t.definition.references.length, fun ref' t' hmem hnames' => ?_⟩
      rcases List.mem_cons.1 hmem with hhref' | hmem
      · rw [names_unique (hhref'.trans hhref.symm) hnames' hnames]
        exact le_max_right _ _
      · exact (hbound ref' t' hmem hnames').trans (le_max_left _ _)
    · refine ⟨bound, fun ref' t' hmem hnames' => ?_⟩
      rcases List.mem_cons.1 hmem with hhref' | hmem
      · exact absurd ⟨ref', t', hhref', hnames'⟩ hnamed
      · exact hbound ref' t' hmem hnames'

/-- A search can succeed if and only if all reachable references name a definition of their kind,
and only finitely many URIs are reachable. -/
theorem exists_gives_iff {index : Index} (hindex : Index.ofApplication w.app = .ok index) :
    (∃ fuel r n, Gives (resolveWith w.loading w.strict fuel w.app) [] r n) ↔
      (∀ ref, w.Reachable ref → w.Resolvable ref) ∧
        ∃ hrefs : List String, ∀ ref, w.Reachable ref → ref.href ∈ hrefs := by
  constructor
  · rintro ⟨fuel, r, n, h⟩
    have hr := resolves_of_gives h
    exact ⟨fun ref href => hr.resolvable href, r.targets.map (·.1), fun ref href =>
      (hr.mem_keys _).2 ⟨ref, href, rfl⟩⟩
  · rintro ⟨hres, hrefs, hfinite⟩
    obtain ⟨bound, hbound⟩ := exists_bound (w := w) hrefs
    obtain ⟨t, n, hrun⟩ := Invariant.run_gives hres hfinite
      (fun ref t href hnames => hbound ref t (hfinite ref href) hnames) [] (Invariant.start hindex)
      (Nat.le_refl _)
    exact ⟨_, t.resolution, n, gives_resolveWith.2 ⟨index, t, hindex, hrun, rfl⟩⟩

end Web

end Wadl
