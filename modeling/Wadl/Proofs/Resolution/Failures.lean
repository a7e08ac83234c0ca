import Wadl.Proofs.Document.Nesting
import Wadl.Proofs.Resolution.Libraries

/-!
# What reading and resolving fail with

Reading a document fails with an error of its own, or because a reference that it looks at is no URI
(`Xml.Node.Misrefers`), and a document of bytes also because of its charset. Resolving fails with an
error of its own, or because a reference that is reached, or one in a document that is loaded, is no
URI (`Web.Misrefers`); it can be exhausted only if the references that are reached are more than the
steps. `failures_explained` puts this together.
-/

namespace Wadl

open Reader Search

/-! ## Reading -/

/-- Reading looks at a reference that cannot be joined with the base. -/
def Xml.Node.Misrefers (root : Xml.Node) (base : String) (error : UriError) : Prop :=
  ∃ e : Reader.Element, e.node = root ∧ ∃ s, (Site.top e).Below s ∧
    ∃ href ∈ s.hrefs, joinUri base href = .error error

/-- An error is an own one, or that of a reference that cannot be joined with the base. -/
def DocumentError.Explained (base : String) (root : Xml.Node) (error : DocumentError) : Prop :=
  error.IsOwn = true ∨ ∃ u, root.Misrefers base u ∧ error = .badUri u

section Reading

variable {base : String} {strict : Bool}

theorem Site.Blamed.explained {e : Reader.Element} {error : DocumentError}
    (h : (Site.top e).Blamed base strict error) : error.Explained base e.node := by
  rcases h with ⟨hown, -⟩ | ⟨s, hbelow, hfault⟩
  · exact Or.inl hown
  · cases hfault with
    | badUri mem join => exact Or.inr ⟨_, ⟨e, rfl, s, hbelow, _, mem, join⟩, rfl⟩
    | misplaced => exact Or.inl rfl
    | unrecognized => exact Or.inl rfl

/-- A document is read only if all references that reading looks at can be joined with the base, and
it fails with an error that is explained. -/
theorem readDescription_explained {root : Xml.Node} :
    Ensures (readDescription base strict root) (fun _ => ∀ u, ¬root.Misrefers base u)
      (DocumentError.Explained base root) := by
  cases root with
  | element tag content =>
    refine (readDescription_ensures (e := ⟨tag, content⟩)).mono (fun _ hpass u => ?_) fun _ h =>
      h.explained
    rintro ⟨e, he, s, hbelow, href, hmem, hjoin⟩
    obtain rfl : e = ⟨tag, content⟩ := Element.node_inj he
    obtain ⟨uri, huri⟩ := (hpass s hbelow).joined href hmem
    rw [hjoin] at huri
    cases huri
  | text _ | comment _ | instruction _ =>
    have hthrow : ∀ root,
        Ensures (throw (.malformed .notWellFormed []) : Reading Application) (fun _ => False)
        (DocumentError.Explained base root) := fun _ => .throw (Or.inl rfl)
    exact (hthrow _).bind fun _ hfalse => hfalse.elim

/-- A document that is text fails with an error that is explained. -/
theorem fails_readDescriptionText {text : String} {error : DocumentError}
    (h : Fails (readDescriptionText base strict text) error) :
    error.IsOwn = true ∨ ∃ root u, Xml.readText text = some root ∧
      root.withoutMarks.Misrefers base u ∧ error = .badUri u := by
  unfold readDescriptionText at h
  split at h
  · rename_i root hroot
    rcases readDescription_explained.fails error h with hown | ⟨u, hbad, rfl⟩
    · exact Or.inl hown
    · exact Or.inr ⟨root, u, hroot, hbad, rfl⟩
  · rw [← h.throw]
    exact Or.inl rfl

end Reading

/-! ## Charsets -/

namespace Xml

/-- Bytes begin with a declaration that names a charset. -/
def NamesCharset (bytes : List UInt8) (name : String) : Prop :=
  ∃ declared rest, declared.charset = some name ∧
    declaration? (Text.unifyLineEnds (charsOf (detect bytes).1 (detect bytes).2)) =
      some (declared, rest)

/-- The names of the charsets that documents are read in without a codec. -/
def builtInCharsets : List String :=
  ["utf-8", "iso-8859-1", "us-ascii", "utf-16", "utf-16le", "utf-16be"]

/-- What is wrong with a charset that is read with a codec: there is none, or it does not find one
character in each byte. -/
inductive CharsetFault (codecs : Codecs) (name : String) : ReadError → Prop where
  | unknown (h : codecs.decode name allBytes = .error .unknown) :
      CharsetFault codecs name .unknownCharset
  | refused (h : codecs.decode name allBytes = .error .refused) :
      CharsetFault codecs name .multibyteCharset
  | wide {chars : String} (h : codecs.decode name allBytes = .ok chars)
      (hlength : chars.length ≠ 0x100) : CharsetFault codecs name .multibyteCharset

/-- Bytes declare a charset that is read with a codec, and something is wrong with that. -/
def BadCharset (codecs : Codecs) (bytes : List UInt8) (error : ReadError) : Prop :=
  ∃ name, NamesCharset bytes name ∧
    String.ofList (name.toList.map Uri.lowerAscii) ∉ builtInCharsets ∧
    CharsetFault codecs name error

variable {codecs : Codecs} {bytes : List UInt8} {name : String} {error : ReadError}

theorem byteCharset_fails (herror : error ≠ .notWellFormed) :
    byteCharset codecs name = .error error ↔ CharsetFault codecs name error := by
  constructor
  · intro h
    unfold byteCharset at h
    split at h
    · exact Except.error.inj h ▸ .unknown ‹_›
    · exact Except.error.inj h ▸ .refused ‹_›
    · split at h
      · exact Except.error.inj h ▸ .wide ‹_› ‹_›
      · split at h
        · cases h
        · exact absurd (Except.error.inj h).symm herror
  · intro h
    unfold byteCharset
    cases h with
    | unknown h => rw [h]
    | refused h => rw [h]
    | wide h hlength =>
      rw [h]
      exact if_pos hlength

/-- Besides for not being well-formed, a document is not read in the charset of a name just if that
is read with a codec and something is wrong with it. -/
theorem charsetFor_fails (shown : Charset) (herror : error ≠ .notWellFormed) :
    charsetFor codecs shown name = .error error ↔
      String.ofList (name.toList.map Uri.lowerAscii) ∉ builtInCharsets ∧
      CharsetFault codecs name error := by
  have hkey : ∀ word : String, name.toList.map Uri.lowerAscii = word.toList ↔
      String.ofList (name.toList.map Uri.lowerAscii) = word := fun word =>
    ⟨fun h => by rw [h, String.ofList_toList], fun h => by rw [← h, String.toList_ofList]⟩
  unfold charsetFor
  simp only [hkey, builtInCharsets, List.mem_cons, List.not_mem_nil, or_false, not_or]
  generalize String.ofList (name.toList.map Uri.lowerAscii) = key
  constructor
  · intro h
    split_ifs at h
    all_goals first
      | exact absurd (Except.error.inj h).symm herror
      | exact ⟨by tauto, (byteCharset_fails herror).1 h⟩
  · rintro ⟨⟨h1, h2, h3, h4, h5, h6⟩, hfault⟩
    simp only [h1, h2, h3, h4, h5, h6, if_false]
    exact (byteCharset_fails herror).2 hfault

/-- Besides for not being well-formed, bytes are no tree just if something is wrong with the charset
that they declare. -/
theorem readBytes_fails (herror : error ≠ .notWellFormed) :
    readBytes bytes codecs = .error error ↔ BadCharset codecs bytes error := by
  unfold readBytes BadCharset NamesCharset
  simp only [pure_bind]
  cases hdeclaration :
    declaration? (Text.unifyLineEnds (charsOf (detect bytes).1 (detect bytes).2)) with
  | none =>
    refine iff_of_false (fun h => herror (Except.error.inj h).symm) ?_
    rintro ⟨name, ⟨_, _, -, h⟩, -⟩
    cases h
  | some found =>
    obtain ⟨declared, rest⟩ := found
    cases hname : declared.charset with
    | none =>
      refine iff_of_false (fun h => ?_) ?_
      · simp only [hname] at h
        split at h
        · cases h
        · exact herror (Except.error.inj h).symm
      rintro ⟨name, ⟨_, _, hdeclared, h⟩, -⟩
      obtain ⟨rfl, -⟩ := Prod.mk.inj (Option.some.inj h)
      cases hname.symm.trans hdeclared
    | some n =>
      simp only [hname]
      have hdeclares : ∀ name, (∃ declared' rest', declared'.charset = some name ∧
          some (declared, rest) = some (declared', rest')) ↔ name = n := by
        intro name
        constructor
        · rintro ⟨_, _, hdeclared, h⟩
          obtain ⟨rfl, -⟩ := Prod.mk.inj (Option.some.inj h)
          exact Option.some.inj (hdeclared.symm.trans hname)
        · rintro rfl
          exact ⟨declared, rest, hname, rfl⟩
      simp only [hdeclares, exists_eq_left, ← charsetFor_fails (detect bytes).1 herror]
      cases hcharset : charsetFor codecs (detect bytes).1 n with
      | error e => simp [bind, Except.bind]
      | ok charset =>
        refine iff_of_false (fun h => ?_) (fun h => nomatch h)
        simp only [bind, Except.bind] at h
        repeat' split at h
        all_goals first
          | exact herror (Except.error.inj h).symm
          | cases h

end Xml

section Bytes

variable {base : String} {strict : Bool} {codecs : Codecs}

/-- A document of bytes fails with an error that is explained, or because of the charset that it
declares. -/
theorem fails_readDescriptionBytes {bytes : List UInt8} {error : DocumentError}
    (h : Fails (readDescriptionBytes base strict bytes codecs) error) :
    error.IsOwn = true ∨
    (∃ root u, Xml.readBytes bytes codecs = .ok root ∧ root.withoutMarks.Misrefers base u ∧
      error = .badUri u) ∨ ∃ e, Xml.BadCharset codecs bytes e ∧ error = .ofRead e := by
  unfold readDescriptionBytes at h
  split at h
  · rename_i root hroot
    rcases readDescription_explained.fails error h with hown | ⟨u, hbad, rfl⟩
    · exact Or.inl hown
    · exact Or.inr (Or.inl ⟨root, u, hroot, hbad, rfl⟩)
  · rename_i e he
    by_cases hformed : e = .notWellFormed
    · rw [← h.throw, hformed]
      exact Or.inl rfl
    · exact Or.inr (Or.inr ⟨e, (Xml.readBytes_fails hformed).1 he, h.throw.symm⟩)

/-- A document is never read if something is wrong with the charset that it declares. -/
theorem fails_of_badCharset {bytes : List UInt8} {error : Xml.ReadError}
    (h : Xml.BadCharset codecs bytes error) :
    Fails (readDescriptionBytes base strict bytes codecs) (.ofRead error) := by
  have hformed : error ≠ .notWellFormed := by
    obtain ⟨_, -, -, hfault⟩ := h
    cases hfault <;> exact fun heq => nomatch heq
  rw [readDescriptionBytes, (Xml.readBytes_fails hformed).2 h]
  exact ⟨[], [], rfl⟩

end Bytes

/-! ## Resolving -/

/-- An error says that a reference does not name a definition, or what is wrong with a
description. -/
def ResolveError.IsOwn : ResolveError → Bool
  | unresolved .. => true
  | document error => error.IsOwn
  | cyclic _ | badUri | unloadable _ | exhausted => false

namespace Web

variable {w : Web}

variable (w) in
/-- What a search fails with because a reference is no URI: one that is reached, or one in a
document. -/
inductive Misrefers : ResolveError → Prop where
  | badUri {ref : Reference} {u : UriError} (reachable : w.Reachable ref)
      (target : ref.target = .error u) : Misrefers .badUri
  | document {l : Loader} {uri : String} {root : Xml.Node} {u : UriError}
      (loader : w.loader = some l) (loads : l uri = .ok root) (misrefers : root.Misrefers uri u) :
        Misrefers (.document (.badUri u))

variable (w) in
/-- An error is an own one, or that of a reference that is no URI. -/
def Explains (error : ResolveError) : Prop := error.IsOwn = true ∨ w.Misrefers error

variable (w) in
/-- What a reachable reference asks for is loaded, or cannot be had for a reason that loaders
give. -/
def LoadsOrSays : Prop :=
  ∀ ref uri id l error, w.Reachable ref → ref.target = .ok (uri, id) → w.loader = some l →
    l uri = .error error → ∃ u cause, error = .failed u cause

theorem readNoticed_ensures {uri : String} {strict : Bool} {root : Xml.Node} :
    Ensures (readNoticed (m := Id) uri strict root) (fun _ => True)
      fun e => ∃ error, e = .document error ∧ Fails (readDescription uri strict root) error := by
  unfold readNoticed
  rcases h : (readDescription uri strict root).run.run [] with ⟨result, notices⟩
  refine (Ensures.modify _).bind fun _ _ => ?_
  cases result with
  | error e => exact .throw ⟨e, rfl, [], notices, h⟩
  | ok app => exact .pure trivial

theorem documentFor_ensures {s : State} {uri : String} {ref : Reference}
    (hload : ∀ l error, w.loader = some l → l uri = .error error →
      ∃ u cause, error = .failed u cause) :
    Ensures (documentFor w.loading w.strict s uri ref) (fun _ => True) w.Explains := by
  unfold documentFor
  split
  · exact .pure trivial
  · unfold loading
    cases hl : w.loader with
    | none => exact .throw (Or.inl rfl)
    | some l =>
      refine (Ensures.modify _).bind fun _ _ => ?_
      refine (Ensures.liftState (Q := fun loaded => l uri = loaded) fun _ => rfl).bind
        fun loaded hloaded => ?_
      cases loaded with
      | error error =>
        obtain ⟨u, cause, rfl⟩ := hload l error hl hloaded
        exact .throw (Or.inl rfl)
      | ok root =>
        refine (readNoticed_ensures.mono (fun _ h => h) fun e he => ?_).bind fun app _ => ?_
        · obtain ⟨error, rfl, hfails⟩ := he
          rcases readDescription_explained.fails error hfails with hown | ⟨u, hbad, rfl⟩
          · exact Or.inl hown
          · exact Or.inr (.document hl hloaded hbad)
        · split
          · rename_i error herror
            obtain ⟨id, path, rfl⟩ := Index.error_of_ofApplication herror
            exact .throw (Or.inl rfl)
          · exact .pure trivial

theorem checkKind_isOwn {ref : Reference} {id : String} {found : Option DefinitionKind}
    {error : ResolveError} (h : checkKind ref id found = .error error) : error.IsOwn = true := by
  unfold checkKind at h
  split at h
  · cases h
  · rw [← Except.error.inj h]
    rfl

/-- A step fails with an error that is explained. -/
theorem followOne_ensures {s : State} {ref : Reference} (hload : w.LoadsOrSays)
    (href : w.Reachable ref) :
    Ensures (followOne w.loading w.strict s ref) (fun _ => True) w.Explains := by
  have hcheck : ∀ {id : String} {found : Option DefinitionKind},
      Ensures (liftM (checkKind ref id found) : Following Id Unit) (fun _ => True) w.Explains :=
    .lift (fun _ _ => trivial) fun _ herror => Or.inl (checkKind_isOwn herror)
  unfold followOne
  split
  · split
    · rename_i u htarget
      exact .throw (Or.inr (.badUri href htarget))
    · exact hcheck.bind fun _ _ => .pure trivial
  · refine Ensures.bind (Q := fun _ => True) ?_ fun _ _ => .pure trivial
    unfold lookUp
    split
    · rename_i u htarget
      exact .throw (Or.inr (.badUri href htarget))
    · rename_i uri id htarget
      refine (documentFor_ensures fun l error => hload ref uri id l error href htarget).bind
        fun _ _ => ?_
      simp only
      split
      · exact .throw (Or.inl rfl)
      · exact hcheck.bind fun _ _ => .pure trivial

/-- A search fails as one of its steps does, or because it may take fewer steps than it needs. -/
theorem run_ensures {E : ResolveError → Prop} (hstep : ∀ s ref queue, w.Invariant s (ref :: queue) →
    Ensures (followOne w.loading w.strict s ref) (fun _ => True) E) :
    ∀ {fuel : Nat} {s : State} {queue : List Reference},
    w.Invariant s queue → Ensures (run w.loading w.strict fuel s queue) (fun _ => True) fun e =>
      E e ∨ e = .exhausted ∧ ∀ hrefs : List String, (∀ ref, w.Reachable ref → ref.href ∈ hrefs) →
        ∀ bound, (∀ ref t, w.Reachable ref → w.Names ref t →
          t.definition.references.length ≤ bound) →
          fuel < queue.length + (hrefs.length - s.targets.length) * bound
  | 0, _, [], _ | _ + 1, _, [], _ => .pure trivial
  | 0, s, ref :: queue, _ => by
    refine .throw (Or.inr ⟨rfl, fun hrefs _ bound _ => ?_⟩)
    rw [List.length_cons]
    omega
  | fuel + 1, s, ref :: queue, h => by
    refine ⟨fun _ _ => trivial, fun e he => ?_⟩
    rcases he.bind with he | ⟨⟨s', found⟩, hfollow, he⟩
    · exact Or.inl ((hstep s ref queue h).fails e he)
    · refine ((run_ensures hstep (h.step hfollow)).fails e he).imp_right
        fun ⟨hexhausted, hfew⟩ => ?_
      refine ⟨hexhausted, fun hrefs hfinite bound hbound => ?_⟩
      by_contra henough
      have hless := hfew hrefs hfinite bound hbound
      have hsteps : (queue ++ found).length + (hrefs.length - s'.targets.length) * bound ≤ fuel :=
        h.steps_le hfinite hbound hfollow (by omega)
      omega

/-- Resolving a description fails as a step of the search does, or because it may take fewer steps
than it needs. -/
theorem fails_resolveWith_of {E : ResolveError → Prop}
    (hstep : ∀ s ref queue, w.Invariant s (ref :: queue) →
    Ensures (followOne w.loading w.strict s ref) (fun _ => True) E) {index : Index}
    (hindex : Index.ofApplication w.app = .ok index) {fuel : Nat} {e : ResolveError}
    (h : Fails (resolveWith w.loading w.strict fuel w.app) e) :
    E e ∨ e = .exhausted ∧ ∀ hrefs : List String, (∀ ref, w.Reachable ref → ref.href ∈ hrefs) →
      ∀ bound, (∀ ref t, w.Reachable ref → w.Names ref t → t.definition.references.length ≤ bound) →
        fuel < w.app.references.length + hrefs.length * bound := by
  unfold resolveWith at h
  rw [hindex] at h
  rcases h.bind with h | ⟨_, -, h⟩
  · exact (run_ensures hstep (Invariant.start hindex)).fails e h
  · exact absurd h not_fails_pure

/-- Resolving a description fails with an error that is explained, or because it may take fewer
steps than it needs. -/
theorem fails_resolveWith (hload : w.LoadsOrSays) {index : Index}
    (hindex : Index.ofApplication w.app = .ok index) {fuel : Nat} {e : ResolveError}
    (h : Fails (resolveWith w.loading w.strict fuel w.app) e) :
    w.Explains e ∨ e = .exhausted ∧ ∀ hrefs : List String,
      (∀ ref, w.Reachable ref → ref.href ∈ hrefs) →
      ∀ bound, (∀ ref t, w.Reachable ref → w.Names ref t → t.definition.references.length ≤ bound) →
        fuel < w.app.references.length + hrefs.length * bound :=
  fails_resolveWith_of
    (fun _ ref _ hs => followOne_ensures hload (hs.queued ref List.mem_cons_self)) hindex h

/-- A search for finitely many URIs is not exhausted if it may take enough steps. -/
theorem exists_enough (hload : w.LoadsOrSays) {index : Index}
    (hindex : Index.ofApplication w.app = .ok index) {hrefs : List String}
    (hfinite : ∀ ref, w.Reachable ref → ref.href ∈ hrefs) :
    ∃ enough, ∀ fuel, enough ≤ fuel → ∀ e, Fails (resolveWith w.loading w.strict fuel w.app) e →
      w.Explains e := by
  obtain ⟨bound, hbound⟩ := exists_bound (w := w) hrefs
  refine ⟨w.app.references.length + hrefs.length * bound, fun fuel henough e he => ?_⟩
  refine (fails_resolveWith hload hindex he).resolve_right fun ⟨_, hfew⟩ => ?_
  exact absurd (hfew hrefs hfinite bound fun ref t href hnames =>
    hbound ref t (hfinite ref href) hnames) (Nat.not_lt.2 henough)

end Web

namespace Library

variable {library : Option Library} {strict : Bool} {app : Application}

/-- A library loads its documents, or says why it cannot, if what it holds for them does so. -/
theorem loadsOrSays (h : ∀ l ∈ library, ∀ uri error, (uri, .error error) ∈ l.documents →
    ∃ u cause, error = .failed u cause) : (web library strict app).LoadsOrSays := by
  intro ref uri id l error _ htarget hl herror
  obtain ⟨lib, hlib, rfl⟩ := Option.map_eq_some_iff.1 hl
  rw [load_eq (hash_notMem_of_target htarget)] at herror
  cases hlookup : lib.documents.lookup uri with
  | none =>
    rw [hlookup] at herror
    exact ⟨uri, .noSuchDocument, (Except.error.inj herror).symm⟩
  | some document =>
    rw [hlookup] at herror
    obtain rfl : document = .error error := herror
    exact h lib hlib uri error (mem_of_lookup hlookup)

/-- With a library, resolving fails as a step of the search does. -/
theorem fails_as_step {E : ResolveError → Prop} {index : Index}
    (hindex : Index.ofApplication app = .ok index)
    (hstep : ∀ s ref queue, (web library strict app).Invariant s (ref :: queue) →
      Ensures (followOne (web library strict app).loading strict s ref) (fun _ => True) E)
        {e : ResolveError}
    {n : List Notice} (h : resolve library strict app = (.error e, n)) : E e := by
  rw [resolve_eq] at h
  refine (Web.fails_resolveWith_of (w := web library strict app) hstep hindex
    ⟨[], n, h⟩).resolve_right fun ⟨_, hfew⟩ => ?_
  have hless := hfew _ (fun ref href => List.mem_map_of_mem (reachable_mem href)) _
    fun ref t _ hnames => (names_sublist hnames).length_le
  exact absurd hless (Nat.not_lt.2 length_add_le_budget)

/-- With a library, resolving fails with an error that is explained. -/
theorem explains_of_resolve (hload : (web library strict app).LoadsOrSays) {index : Index}
    (hindex : Index.ofApplication app = .ok index) {e : ResolveError} {n : List Notice}
    (h : resolve library strict app = (.error e, n)) : (web library strict app).Explains e :=
  fails_as_step hindex
    (fun _ ref _ hs => Web.followOne_ensures hload (hs.queued ref List.mem_cons_self)) h

end Library

/-! ## What is left -/

/-- Reading a document fails with an own error, or because reading looks at a reference that cannot
be joined with the base, or because something is wrong with the charset that its bytes declare,
whatever charsets are known. A document with such a reference or charset is never read. Resolving a
description that was read fails with an own error, or because a reference in it or in a document
that is loaded is no URI; this needs a loader that says why it cannot load what is asked for. The
search ends if the URIs that it reaches are finitely many, and always with a library. -/
theorem failures_explained (base : String) (strict : Bool) :
    (∀ text error, Fails (readDescriptionText base strict text) error → error.IsOwn = true ∨
      ∃ root u, Xml.readText text = some root ∧ root.withoutMarks.Misrefers base u ∧
        error = .badUri u) ∧
    (∀ codecs bytes error, Fails (readDescriptionBytes base strict bytes codecs) error →
      error.IsOwn = true ∨
      (∃ root u, Xml.readBytes bytes codecs = .ok root ∧ root.withoutMarks.Misrefers base u ∧
        error = .badUri u) ∨
      ∃ e, Xml.BadCharset codecs bytes e ∧ error = .ofRead e) ∧
    (∀ codecs bytes e, Xml.BadCharset codecs bytes e →
      Fails (readDescriptionBytes base strict bytes codecs) (.ofRead e)) ∧
    ∀ root app, Yields (readDescription base strict root) app → (∀ u, ¬root.Misrefers base u) ∧
      (∀ loader strict', let w : Web := ⟨app, loader, strict'⟩
        w.LoadsOrSays →
          (∀ fuel e, Fails (resolveWith w.loading strict' fuel app) e →
            w.Explains e ∨ e = .exhausted) ∧
          ∀ hrefs : List String, (∀ ref, w.Reachable ref → ref.href ∈ hrefs) → ∃ enough,
            ∀ fuel, enough ≤ fuel → ∀ e,
              Fails (resolveWith w.loading strict' fuel app) e → w.Explains e) ∧
      ∀ library : Option Library, ∀ strict',
        (∀ l ∈ library, ∀ uri e, (uri, .error e) ∈ l.documents → ∃ u cause, e = .failed u cause) →
          ∀ e n, resolve library strict' app = (.error e, n) →
            (Library.web library strict' app).Explains e := by
  refine ⟨fun text error => fails_readDescriptionText, fun codecs bytes error =>
    fails_readDescriptionBytes, fun codecs bytes e => fails_of_badCharset,
    fun root app happ => ⟨readDescription_explained.yields app happ, ?_, ?_⟩⟩
  all_goals obtain ⟨index, hindex⟩ := index_of_readDescription happ
  · intro loader strict' w hload
    refine ⟨fun fuel e he => ?_, fun hrefs hfinite => Web.exists_enough hload hindex hfinite⟩
    exact (Web.fails_resolveWith hload hindex he).imp_right And.left
  · exact fun library strict' hfailed e n h =>
      Library.explains_of_resolve (Library.loadsOrSays hfailed) hindex h

/-- A document with a reference whose host opens a bracket and does not close it. -/
def openBracket : String :=
  "<application><representation id=\"r\"><param href=\"http://[x\"/></representation></application>"

/-- A description that has such a reference, kept as it is because there is no base. -/
def openBracketRoot : Xml.Node :=
  plainElement "application" [] [plainElement "representation" [("id", "r")]
    [plainElement "param" [("href", "http://[x#p")] []]]

/-- Reading the document fails because of its reference, and resolving the description because of
its own. -/
theorem failures_explained_openBracket :
    (Fails (readDescriptionText "http://h/d" false openBracket) (.badUri .unpairedBracket) ∧
      ∃ root u, Xml.readText openBracket = some root ∧ root.withoutMarks.Misrefers "http://h/d" u) ∧
    ∃ app, Yields (readDescription "" false openBracketRoot) app ∧
      (resolve none false app).1 = .error .badUri ∧
      (Library.web none false app).Misrefers .badUri := by
  refine ⟨?_, ?_⟩
  · have hfails :
        Fails (readDescriptionText "http://h/d" false openBracket) (.badUri .unpairedBracket) := by
      have hchars : openBracket.toList = _ := String.toList_ofList
      rw [readDescriptionText, Xml.readText, hchars]
      exact fails_of_errorOf? (s := []) (by decide +kernel)
    refine ⟨hfails, ?_⟩
    rcases (failures_explained "http://h/d" false).1 openBracket _
      hfails with hown | ⟨root, u, hroot, hbad, -⟩
    · cases hown
    · exact ⟨root, u, hroot, hbad⟩
  · obtain ⟨app, n, happ, hfails⟩ :=
      exists_gives_of_any (x := readDescription "" false openBracketRoot)
      (s := []) (p := fun app => errorOf? (resolve none false app).1 = some .badUri)
      (by decide +kernel)
    have herror : errorOf? (resolve none false app).1 = some .badUri := of_decide_eq_true hfails
    rcases hresolve : resolve none false app with ⟨e | r, n'⟩
    · rw [hresolve] at herror
      obtain rfl : e = .badUri := Option.some.inj herror
      refine ⟨app, happ.yields, congrArg Prod.fst hresolve, ?_⟩
      obtain ⟨-, -, hlibrary⟩ := (failures_explained "" false).2.2.2 _ app happ.yields
      have hexplained := hlibrary none false (by simp) _ _ hresolve
      exact hexplained.resolve_left (by simp [ResolveError.IsOwn])
    · rw [hresolve] at herror
      cases herror

end Wadl
