import Wadl.Proofs.Uri.Resolved

/-!
# Faithful bases

In a document with a base, a reference is written as its fragment if it is one of the base, and as
it is otherwise (`written`). What is written is joined with the base to the reference again for each
reference just if the base is faithful (`faithful_iff`): it is the text of its parts and leaves
resolved references alone, or it is one against which nothing is resolved and has a fragment.
-/

namespace Wadl.Uri

/-- A reference as it is written in a document with a base. -/
def written (base uri : List Char) : Except UriError (List Char) := do
  let (document, fragment) ← defragment uri
  return if document = base then '#' :: fragment else uri

/-- A base with which written references are joined to themselves. -/
def Faithful (base : List Char) : Prop :=
  ∃ b, parse base = .ok b ∧
    if relativeSchemes.contains (String.ofList b.scheme) then b.text = base ∧ b.Steady
    else '#' ∈ base

instance (base : List Char) : Decidable (Faithful base) :=
  match h : parse base with
  | .error _ => .isFalse fun ⟨_, hb, _⟩ => nomatch h.symm.trans hb
  | .ok b =>
    decidable_of_iff (if relativeSchemes.contains (String.ofList b.scheme) then b.text = base ∧
      b.Steady
      else '#' ∈ base)
    ⟨fun hb => ⟨b, h, hb⟩, fun ⟨_, hc, hb⟩ => Except.ok.inj (h.symm.trans hc) ▸ hb⟩

/-- What is written of a reference is joined with the base to the reference again. -/
def Survives (base uri : List Char) : Prop := ∃ w, written base uri = .ok w ∧ join base w = .ok uri

theorem join_nil (base : List Char) : join base [] = .ok base := by
  cases base <;> rfl

section Written

variable {base uri document fragment : List Char}

/-- A URI in the same document is written as its fragment. -/
theorem written_of_eq (h : defragment uri = .ok (base, fragment)) :
    written base uri = .ok ('#' :: fragment) := by
  rw [written, h]
  show Except.ok (if base = base then _ else _) = _
  rw [if_pos rfl]

/-- A URI in another document is written out. -/
theorem written_of_ne (h : defragment uri = .ok (document, fragment)) (hne : document ≠ base) :
    written base uri = .ok uri := by
  rw [written, h]
  show Except.ok (if document = base then _ else _) = _
  rw [if_neg hne]

/-- What can be read can be parted from its fragment. -/
theorem exists_defragment {u : Uri} (h : parse uri = .ok u) : ∃ document fragment,
    defragment uri = .ok (document, fragment) := by
  unfold defragment
  split
  · exact ⟨_, _, by rw [h]; rfl⟩
  · exact ⟨uri, [], rfl⟩

/-- A reference that can be read is written as it is if the base has a fragment. -/
theorem written_of_hash {u : Uri} (h : parse uri = .ok u) (hhash : '#' ∈ base) :
    written base uri = .ok uri := by
  obtain ⟨document, fragment, hdefragment⟩ := exists_defragment h
  refine written_of_ne hdefragment ?_
  rintro rfl
  exact hash_notMem_defragment hdefragment hhash

end Written

/-! ## References to a faithful base -/

section Survives

variable {u v b r : Uri} {base ref uri : List Char}

/-- Without a number sign there is no fragment. -/
theorem fragment_eq_nil (h : parse base = .ok b) (hhash : '#' ∉ base) : b.fragment = [] := by
  obtain ⟨after, rest, before, full, hscheme, hauthority, -, hfragment, -⟩ := parseWith_ok.1 h
  have hrest : '#' ∉ rest := by
    intro hc
    have hafter : '#' ∈ after := mem_splitAuthority_snd (by rwa [hauthority])
    have hcleaned : '#' ∈ cleaned base := mem_splitScheme_snd (by rwa [hscheme])
    exact hhash (mem_cleaned hcleaned).1
  have hsplit := splitAtFirst_marked (b := []) hrest
  rw [marked, if_pos List.isEmpty_nil, List.append_nil, hfragment] at hsplit
  exact (Prod.mk.inj hsplit).2

/-- The fragment of a reference to the base itself is joined to it. -/
theorem join_own_fragment (hb : parse base = .ok b) (hbase : base ≠ [])
    (hrel : relativeSchemes.contains (String.ofList b.scheme) = true)
    (htext : b.text = base) (hv : v.Legible)
    (hdocument : ({ v with fragment := [] } : Uri).text = base) :
    join base ('#' :: v.fragment) = .ok v.text := by
  have hhash : '#' ∉ base := hdocument ▸ hash_notMem_defragment hv.defragment_text
  have hnone : ({ b with fragment := [] } : Uri) = b := by rw [← fragment_eq_nil hb hhash]
  have hkept : withoutBreaks v.fragment = v.fragment := by
    rw [withoutBreaks, List.filter_eq_self]
    intro c hc
    simpa [and_assoc] using hv.kept c (List.mem_append_right _ hc)
  rw [join_fragment, hb, Except.map, if_neg (by simpa [hbase] using hrel), hnone, htext, hkept,
    text_fragment v v.fragment, hdocument]

/-- Legible parts that are joined with the base to themselves survive. -/
theorem survives_text (hb : parse base = .ok b) (hbase : base ≠ [])
    (hrel : relativeSchemes.contains (String.ofList b.scheme) = true)
    (htext : b.text = base) (hv : v.Legible) (hjoin : join base v.text = .ok v.text) :
    Survives base v.text := by
  by_cases hdocument : ({ v with fragment := [] } : Uri).text = base
  · exact ⟨_, written_of_eq (hdocument ▸ hv.defragment_text),
      join_own_fragment hb hbase hrel htext hv hdocument⟩
  · exact ⟨_, written_of_ne hv.defragment_text hdocument, hjoin⟩

theorem parse_nil : parse [] = .ok ⟨[], [], [], [], [], []⟩ := rfl

theorem ne_nil_of_parse (hb : parse base = .ok b) (hanchored : b.Anchored) : base ≠ [] := by
  rintro rfl
  rw [parse_nil] at hb
  obtain rfl := Except.ok.inj hb
  rcases hanchored with h | h <;> exact h rfl

/-- A reference of another scheme than the base is not one of the base. -/
theorem written_other (hb : parse base = .ok b) (hr : parseWith b.scheme ref = .ok r)
    (hscheme : r.scheme ≠ b.scheme) : written base ref = .ok ref := by
  obtain ⟨hparse, hne⟩ := parse_of_scheme_ne hr hscheme
  unfold written defragment
  split
  · rw [hparse]
    show Except.ok (if _ = base then _ else _) = _
    refine congrArg Except.ok (if_neg ?_)
    rintro rfl
    exact hscheme (scheme_of_parse_text hparse hne hb).symm
  · show Except.ok (if ref = base then _ else _) = _
    refine congrArg Except.ok (if_neg ?_)
    rintro rfl
    exact hscheme (by rw [Except.ok.inj (hr.symm.trans (parseWith_of_parse hb))])

/-- The base itself is joined with itself to itself. -/
theorem join_self (hb : parse base = .ok b)
    (hrel : relativeSchemes.contains (String.ofList b.scheme) = true) (htext : b.text = base)
    (hsteady : b.Steady) : join base base = .ok base := by
  have hbase := ne_nil_of_parse hb hsteady.anchored
  have hlegible := legible_of_parse_self hb hrel
  have hself : b.rooted = b :=
    Except.ok.inj ((hlegible.parse_located hsteady.anchored.located).symm.trans (htext ▸ hb))
  have hresolve : resolve b b = b := by
    have hrooted := resolve_rooted (b := b) hrel fun hnone =>
      ⟨hnone, (hsteady.resolve_left (not_not_intro hnone)).2,
        fun hpath hparams => ⟨hpath, hparams, id⟩⟩
    rwa [hself] at hrooted
  rw [join_eq hb hbase hbase, parseWith_of_parse hb]
  simp only [Except.map, hrel, and_self, if_true, hresolve, htext]

/-- References of a steady base are joined again to where they were. -/
theorem survives_of_relative (hb : parse base = .ok b)
    (hrel : relativeSchemes.contains (String.ofList b.scheme) = true) (htext : b.text = base)
    (hsteady : b.Steady) (h : join base ref = .ok uri) : Survives base uri := by
  have hbase := ne_nil_of_parse hb hsteady.anchored
  by_cases href : ref = []
  · have huri : uri = b.text := by
      rw [href, join_nil] at h
      rw [htext, Except.ok.inj h]
    rw [huri]
    refine survives_text hb hbase hrel htext (legible_of_parse_self hb hrel) ?_
    rw [htext]
    exact join_self hb hrel htext hsteady
  · have hjoin := h
    rw [join_eq hb hbase href] at h
    obtain ⟨r, hr, huri⟩ := Result.map_ok.1 h
    split at huri
    · rename_i hsame
      subst huri
      exact survives_text hb hbase hrel htext
        (legible_resolve hb hrel hr hsame.1 (hsteady.anchored.resolve hrel hsame.1).located)
        (join_text_resolve hb hbase hrel hr hsame.1 hsteady)
    · rename_i hother
      subst huri
      have hscheme : r.scheme ≠ b.scheme := fun hscheme => hother ⟨hscheme, hrel⟩
      exact ⟨ref, written_other hb hr hscheme, hjoin⟩

/-- With a number sign in a base that is not relative, each reference is written out and kept. -/
theorem survives_of_hash (hb : parse base = .ok b)
    (hrel : relativeSchemes.contains (String.ofList b.scheme) = false) (hhash : '#' ∈ base)
    (h : join base ref = .ok uri) : Survives base uri := by
  have hbase : base ≠ [] := List.ne_nil_of_mem hhash
  by_cases href : ref = []
  · have huri : uri = base := by
      rw [href, join_nil] at h
      exact (Except.ok.inj h).symm
    rw [huri]
    refine ⟨base, written_of_hash hb hhash, ?_⟩
    rw [join_eq hb hbase hbase, parseWith_of_parse hb, Except.map,
      if_neg fun hsame => Bool.false_ne_true (hrel.symm.trans hsame.2)]
  · obtain ⟨rfl, u, hu⟩ := join_kept hb hbase href hrel h
    exact ⟨uri, written_of_hash hu hhash, h⟩

/-- Each reference survives with a faithful base. -/
theorem survives_of_faithful (hfaithful : Faithful base) (h : join base ref = .ok uri) :
    Survives base uri := by
  obtain ⟨b, hb, hkind⟩ := hfaithful
  split at hkind
  · rename_i hrel
    exact survives_of_relative hb hrel hkind.1 hkind.2 h
  · rename_i hrel
    exact survives_of_hash hb (by simpa using hrel) hkind h

end Survives

/-! ## Bases to which references survive -/

section SelfSurvives

variable {b : Uri} {base : List Char}

theorem written_self (hhash : '#' ∉ base) : written base base = .ok ['#'] := by
  refine written_of_eq ?_
  rw [defragment, if_neg (by simpa using hhash)]
  rfl

/-- A base without a fragment that survives is what a fragment alone is joined to. -/
theorem join_hash_of_survives (h : Survives base base) (hhash : '#' ∉ base) :
    join base ['#'] = .ok base := by
  obtain ⟨w, hw, hjoin⟩ := h
  rw [written_self hhash] at hw
  rwa [← Except.ok.inj hw] at hjoin

/-- Only a base that can be read lets references survive. -/
theorem exists_parse_of_survives (h : Survives base base) : ∃ b, parse base = .ok b := by
  by_cases hhash : '#' ∈ base
  · obtain ⟨w, hw, -⟩ := h
    cases hb : parse base with
    | ok b => exact ⟨b, rfl⟩
    | error e =>
      rw [written, defragment, if_pos (by simpa using hhash), hb] at hw
      cases hw
  · have hjoin := join_hash_of_survives h hhash
    rw [join_fragment] at hjoin
    obtain ⟨b, hb, -⟩ := Result.map_ok.1 hjoin
    exact ⟨b, hb⟩

/-- A base that survives and against which nothing is resolved has a fragment. -/
theorem hash_of_survives (h : Survives base base) (hb : parse base = .ok b)
    (hrel : relativeSchemes.contains (String.ofList b.scheme) = false) : '#' ∈ base := by
  by_contra hhash
  have hjoin := join_hash_of_survives h hhash
  rw [join_fragment, hb, Except.map, if_pos (by rw [hrel]; exact Bool.or_true _)] at hjoin
  refine hhash ?_
  rw [← Except.ok.inj hjoin]
  exact List.mem_singleton_self '#'

/-- A base that survives is the text of its parts if it has a scheme or an authority. -/
theorem text_of_survives (h : Survives base base) (hb : parse base = .ok b)
    (hrel : relativeSchemes.contains (String.ofList b.scheme) = true)
    (hanchored : b.Anchored) : b.text = base := by
  have hbase := ne_nil_of_parse hb hanchored
  by_cases hhash : '#' ∈ base
  · obtain ⟨w, hw, hjoin⟩ := h
    rw [written_of_hash hb hhash] at hw
    obtain rfl := Except.ok.inj hw
    rw [join_eq hb hbase hbase, parseWith_of_parse hb, Except.map, if_pos ⟨rfl, hrel⟩] at hjoin
    have htext : (resolve b b).text = base := Except.ok.inj hjoin
    have hlocated := (hanchored.resolve hrel rfl).located
    have hlegible := legible_resolve hb hrel (parseWith_of_parse hb) rfl hlocated
    have hself := hlegible.parse_located hlocated
    rw [htext, hb] at hself
    rw [Except.ok.inj hself, text_rooted_of_located hlegible.relative hlocated, htext]
  · have hjoin := join_hash_of_survives h hhash
    rw [join_fragment, hb, Except.map, if_neg (by simpa [hbase] using hrel)] at hjoin
    have htext := Except.ok.inj hjoin
    have hnone : ({ b with fragment := [] } : Uri) = b := by rw [← fragment_eq_nil hb hhash]
    rwa [hnone, withoutBreaks, List.filter_nil, marked, if_pos List.isEmpty_nil,
      List.append_nil] at htext

end SelfSurvives

/-! ## Bases to which all references survive -/

section AllSurvive

variable {b : Uri} {base : List Char}

theorem text_path_eq {path : List Char}
    (h : (⟨[], [], path, [], [], []⟩ : Uri).text = " c".toList) : path = " c".toList := by
  by_cases hlocated : (⟨[], [], path, [], [], []⟩ : Uri).Located
  · have hrel : relativeSchemes.contains (String.ofList []) = true := by decide
    rw [text_of_located hrel hlocated] at h
    exact absurd (congrArg List.head? h) (by simp [schemeMark])
  · rw [text_of_not_located hlocated] at h
    simpa [marked] using h

/-- Without a scheme and an authority, a name that begins with a space is joined to the name without
the space. -/
theorem join_spaced (hb : parse base = .ok b) (hscheme : b.scheme = [])
    (hauthority : b.authority = []) (hbase : base ≠ []) :
    join base "/../ c".toList = .ok " c".toList ∧ join base " c".toList ≠ .ok " c".toList := by
  have hjoin : ∀ {ref path : List Char},
      ref ≠ [] → path ≠ [] → parseWith [] ref = .ok ⟨[], [], path, [], [], []⟩ →
      join base ref = .ok (⟨[], [], mergePaths b.path path, [], [], []⟩ : Uri).text := by
    intro ref path href hpath hr
    have hresolve : resolve b ⟨[], [], path, [], [], []⟩ =
        ⟨[], [], mergePaths b.path path, [], [], []⟩ := by
      simp [resolve, hpath, hauthority]
    rw [join_eq hb hbase href, hscheme, hr, Except.map, if_pos ⟨rfl, by decide⟩, hresolve]
  have hup : parseWith [] "/../ c".toList = .ok ⟨[], [], "/../ c".toList, [], [], []⟩ := by decide
  have hname : parseWith [] " c".toList = .ok ⟨[], [], "c".toList, [], [], []⟩ := by decide
  constructor
  · exact hjoin (by decide) (by decide) hup
  · rw [hjoin (by decide) (by decide) hname]
    intro h
    have hlast := last_mergePaths b.path "c".toList
    rw [text_path_eq (Except.ok.inj h)] at hlast
    exact absurd hlast (by decide)

/-- A base to which all references survive has a scheme or an authority. -/
theorem anchored_of_survives (hall : ∀ ref uri, join base ref = .ok uri → Survives base uri)
    (hb : parse base = .ok b) : b.Anchored := by
  by_contra hanchored
  rw [Anchored, not_or, not_not, not_not] at hanchored
  obtain ⟨hscheme, hauthority⟩ := hanchored
  have hbase : base ≠ [] := by
    rintro rfl
    have hjoin := join_hash_of_survives (hall [] [] rfl) (by decide)
    cases hjoin
  obtain ⟨hup, hdown⟩ := join_spaced hb hscheme hauthority hbase
  obtain ⟨w, hw, hjoin⟩ := hall _ _ hup
  by_cases hself : " c".toList = base
  · have hspaced := join_hash_of_survives (hall [] base (join_nil base)) (hself ▸ by decide)
    rw [← hself] at hspaced
    exact absurd hspaced (by decide)
  · rw [written_of_ne (show defragment " c".toList = .ok (" c".toList, []) by decide) hself] at hw
    rw [← Except.ok.inj hw] at hjoin
    exact hdown hjoin

/-- A query alone is read as such. -/
theorem parseWith_query (default : List Char) {query : List Char}
    (hquery : ∀ c ∈ query, c ≠ '#' ∧ c ≠ '\t' ∧ c ≠ '\r' ∧ c ≠ '\n') :
    parseWith default ('?' :: query) = .ok ⟨default, [], [], [], query, []⟩ := by
  have hcleaned : cleaned ('?' :: query) = '?' :: query := by
    have hfilter : withoutBreaks query = query := by
      rw [withoutBreaks, List.filter_eq_self]
      intro c hc
      simpa [and_assoc] using (hquery c hc).2
    show List.filter _ ('?' :: query) = _
    rw [List.filter_cons_of_pos (by decide)]
    exact congrArg ('?' :: ·) hfilter
  have hscheme : splitScheme default ('?' :: query) = (default, '?' :: query) := by
    unfold splitScheme
    rw [List.takeWhile_cons_of_pos (by decide)]
    simp only
    split
    · rename_i hbefore
      rw [← (List.cons.inj hbefore).1]
      rfl
    · rfl
  have hhash : '#' ∉ '?' :: query := by
    intro hc
    rcases List.mem_cons.1 hc with hc | hc
    · cases hc
    · exact (hquery _ hc).1 rfl
  rw [parseWith_ok, hcleaned]
  refine ⟨_, '?' :: query, '?' :: query, [], hscheme, rfl, rfl, ?_, ?_, ?_⟩
  · simpa [marked] using splitAtFirst_marked (b := []) hhash
  · simp [splitAtFirst]
  · unfold splitParams
    split <;> rfl

/-- A reference that is a query keeps all of the base up to its query. -/
theorem resolve_query (hrel : relativeSchemes.contains (String.ofList b.scheme) = true)
    {query : List Char} (hne : query ≠ []) :
    resolve b ⟨b.scheme, [], [], [], query, []⟩ = { b with query, fragment := [] } := by
  have howns : String.ofList b.scheme ∈ authoritySchemes :=
    List.contains_iff_mem.1 (authority_of_relative hrel)
  simp [resolve, howns, hne]

/-- A query that is not the one of a base. -/
def otherQuery (b : Uri) : List Char := List.replicate (b.query.length + 1) 'q'

theorem otherQuery_kept {c : Char} (hc : c ∈ b.otherQuery) :
    c ≠ '#' ∧ c ≠ '\t' ∧ c ≠ '\r' ∧ c ≠ '\n' := by
  rw [List.eq_of_mem_replicate hc]
  decide

theorem otherQuery_ne_nil (b : Uri) : b.otherQuery ≠ [] := List.cons_ne_nil _ _

/-- The base with another query. -/
def requeried (b : Uri) : Uri := { b with query := b.otherQuery, fragment := [] }

/-- The base with another query, which a query alone is joined to, is no reference to the base. -/
theorem requeried_spec (hb : parse base = .ok b) (hanchored : b.Anchored)
    (hrel : relativeSchemes.contains (String.ofList b.scheme) = true) :
    join base ('?' :: b.otherQuery) = .ok b.requeried.text ∧ b.requeried.Legible ∧
      b.requeried.Located ∧ written base b.requeried.text = .ok b.requeried.text := by
  have hbase := ne_nil_of_parse hb hanchored
  have hr := parseWith_query b.scheme fun c (hc : c ∈ b.otherQuery) => otherQuery_kept hc
  have hresolve := resolve_query hrel (otherQuery_ne_nil b)
  have hlocated : b.requeried.Located := Anchored.located (u := b.requeried) hanchored
  have hlegible : b.requeried.Legible := by
    have hresolved := legible_resolve hb hrel hr rfl
    rw [hresolve] at hresolved
    exact hresolved hlocated
  refine ⟨?_, hlegible, hlocated, written_of_ne hlegible.defragment_text fun hdocument => ?_⟩
  · rw [join_eq hb hbase (List.cons_ne_nil _ _), hr, Except.map, if_pos ⟨rfl, hrel⟩, hresolve]
    rfl
  · have hparse := hlegible.parse_located hlocated
    rw [show b.requeried.text = base from hdocument, hb] at hparse
    have hquery : b.query.length = b.otherQuery.length :=
      congrArg (·.query.length) (Except.ok.inj hparse)
    simp [otherQuery] at hquery

theorem rooted_requeried (h : b.rooted = b) : b.requeried.rooted = b.requeried := by
  have hpath : b.rooted.path = b.path := by rw [h]
  show ({ b.requeried with path := b.rooted.path } : Uri) = b.requeried
  rw [hpath]
  rfl

/-- Parts without an authority that are joined with a base to themselves have no dots in their
path. -/
theorem dotFree_of_join_text (hb : parse base = .ok b) (hanchored : b.Anchored)
    (hrel : relativeSchemes.contains (String.ofList b.scheme) = true) {v : Uri} (hv : v.Legible)
    (hlocated : v.Located) (hrooted : v.rooted = v) (hscheme : v.scheme = b.scheme)
    (hauthority : v.authority = []) (h : join base v.text = .ok v.text) : DotFree v.path := by
  have hparse : parse v.text = .ok v := by rw [hv.parse_located hlocated, hrooted]
  have hagain : parseWith b.scheme v.text = .ok v := hscheme ▸ parseWith_of_parse hparse
  rw [join_eq hb (ne_nil_of_parse hb hanchored) (text_ne_nil_of_located hv.relative hlocated),
    hagain, Except.map, if_pos ⟨hscheme, hrel⟩] at h
  have htext : (resolve b v).text = v.text := Except.ok.inj h
  rcases resolve_cases (b := b) (authority_of_relative hv.relative) with
    ⟨hne, -⟩ | ⟨-, hempty, -⟩ | ⟨-, -, hm⟩
  · exact absurd hauthority hne
  · rw [hempty.1]
    decide
  · have hresolved := (hanchored.resolve hrel hscheme).located
    have hmerged := (legible_resolve hb hrel hagain hscheme hresolved).parse_located hresolved
    rw [htext, hparse, hm] at hmerged
    rw [Except.ok.inj hmerged]
    exact dotFree_rooted (dotFree_mergePaths b.path v.path)

/-- A base to which all references survive has no dots in its path, if it has no authority. -/
theorem steady_of_survives (hall : ∀ ref uri, join base ref = .ok uri → Survives base uri)
    (hb : parse base = .ok b) (hrel : relativeSchemes.contains (String.ofList b.scheme) = true) :
    b.Steady := by
  have hanchored := anchored_of_survives hall hb
  have hbase := ne_nil_of_parse hb hanchored
  have htext := text_of_survives (hall [] base (join_nil base)) hb hrel hanchored
  by_cases hauthority : b.authority = []
  · refine Or.inr ⟨hanchored.resolve_right (not_not_intro hauthority), ?_⟩
    by_contra hdots
    obtain ⟨hjoin, hlegible, hlocated, hwritten⟩ := requeried_spec hb hanchored hrel
    obtain ⟨w, hw, hagain⟩ := hall _ _ hjoin
    rw [hwritten] at hw
    rw [← Except.ok.inj hw] at hagain
    have hself : b.rooted = b := Except.ok.inj
      (((legible_of_parse_self hb hrel).parse_located hanchored.located).symm.trans (htext ▸ hb))
    have hpath :=
      dotFree_of_join_text hb hanchored hrel hlegible hlocated
        (rooted_requeried hself) rfl hauthority
      hagain
    exact hdots hpath
  · exact Or.inl hauthority

/-- All references survive with a base just if it is faithful. -/
theorem faithful_iff : Faithful base ↔ ∀ ref uri, join base ref = .ok uri → Survives base uri := by
  refine ⟨fun h ref uri => survives_of_faithful h, fun hall => ?_⟩
  have hself := hall [] base (join_nil base)
  obtain ⟨b, hb⟩ := exists_parse_of_survives hself
  refine ⟨b, hb, ?_⟩
  split
  · rename_i hrel
    exact ⟨text_of_survives hself hb hrel (anchored_of_survives hall hb),
      steady_of_survives hall hb hrel⟩
  · rename_i hrel
    exact hash_of_survives hself hb (by simpa using hrel)

example : Faithful "http://h/a/d".toList ∧ ¬Faithful "a/d".toList := by decide

end AllSurvive

end Wadl.Uri
