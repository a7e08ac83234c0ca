import Wadl.Proofs.Document.References
import Wadl.Proofs.Document.Rereading.Methods
import Wadl.Proofs.Uri.Faithful

/-!
# References that survive

With a faithful base, each reference that is read is written as a text that is joined to it again;
if nothing but the fragment and what precedes it are written of the base, words that are written are
words again. So all references survive, alone and in lists of words, just if the base is faithful
and the parts of it that are written hold no white space (`references_survive_iff`).
-/

namespace Wadl

namespace Uri

variable {b r v : Uri} {base ref uri w : List Char}

/-! ## White space -/

/-- The parts of a base that stand in references that are resolved against it hold no white
space. -/
def Unspaced (base : List Char) : Prop :=
  ∀ b, parse base = .ok b → relativeSchemes.contains (String.ofList b.scheme) = true →
    (∀ c ∈ b.authority ++ b.path ++ b.params, Text.isBlank c = false) ∧
      ('#' ∈ base → ∀ c ∈ b.query, Text.isBlank c = false)

/-- Characters of a word. -/
def Solid (cs : List Char) : Prop := ∀ c ∈ cs, Text.isBlank c = false

theorem not_isBlank_of_isSchemeChar {c : Char} (h : isSchemeChar c = true) :
    Text.isBlank c = false := by
  have hrange : 43 ≤ c.toNat ∧ c.toNat ≤ 122 := by
    simp only [isSchemeChar, Bool.or_eq_true, beq_iff_eq, CharClass.isAsciiAlphanumeric_iff,
      CharClass.isAsciiLower_iff, CharClass.isAsciiUpper_iff, CharClass.isAsciiDigit_iff] at h
    rcases h with ((h | rfl) | rfl) | rfl
    · omega
    all_goals decide
  have hall : ∀ n < 123, 43 ≤ n → Text.isBlank (Char.ofNat n) = false := by decide
  have hc := hall c.toNat (by omega) hrange.1
  rwa [Char.ofNat_toNat] at hc

/-- A scheme holds no white space. -/
theorem solid_scheme (hrel : relativeSchemes.contains (String.ofList v.scheme) = true) :
    Solid v.scheme := by
  intro c hc
  rcases relative_cases hrel with hempty | ⟨d, ds, hcons, -, hchars, -⟩
  · rw [hempty] at hc
    cases hc
  · rw [hcons] at hc
    exact not_isBlank_of_isSchemeChar (List.all_eq_true.1 hchars c hc)

/-- Nor does a URI whose parts hold none. -/
theorem solid_text (hrel : relativeSchemes.contains (String.ofList v.scheme) = true)
    (h : Solid v.rest) : Solid v.text := by
  intro c hc
  rcases mem_text_rest hc with hc | hc | hc
  · exact solid_scheme hrel c hc
  · exact h c hc
  · exact not_isBlank_of_isMark hc

/-- A reference without white space is read as parts without white space. -/
theorem solid_rest_of_parseWith {default : List Char}
    (hr : parseWith default ref = .ok r) (h : Solid ref) :
    Solid r.rest := fun c hc => h c (mem_cleaned (mem_rest_of_parseWith hr hc)).1

/-- What a word is resolved to holds no white space, if it is not written as a fragment of the
base. -/
theorem solid_resolve (hunspaced : Unspaced base) (hb : parse base = .ok b)
    (hrel : relativeSchemes.contains (String.ofList b.scheme) = true) (htext : b.text = base)
    (hr : parseWith b.scheme ref = .ok r) (hscheme : r.scheme = b.scheme) (href : Solid ref)
    (hdocument : ({ resolve b r with fragment := [] } : Uri).text ≠ base) :
    Solid (resolve b r).text := by
  have hrrel : relativeSchemes.contains (String.ofList r.scheme) = true := hscheme ▸ hrel
  have hrest := solid_rest_of_parseWith hr href
  obtain ⟨hbase, hquery⟩ := hunspaced b hb hrel
  have hvrel : relativeSchemes.contains (String.ofList (resolve b r).scheme) = true := by
    rw [scheme_resolve hrrel]
    exact hrrel
  refine solid_text hvrel fun c hc => ?_
  rcases resolve_cases (b := b) (authority_of_relative hrrel) with ⟨-, hv⟩ | ⟨-, -, hv⟩ | ⟨-, -, hv⟩
  · rw [hv] at hc
    exact hrest c hc
  · rw [hv] at hc hdocument
    -- without a fragment of its own and without another query the base itself would be named
    have hhash : r.query.isEmpty = true → '#' ∈ base := by
      intro hnone
      by_contra hhash
      refine hdocument ?_
      have hself : ({ b with fragment := [] } : Uri) = b := by rw [← fragment_eq_nil hb hhash]
      rw [if_pos hnone, hscheme, ← htext]
      exact congrArg text hself
    simp only [rest, List.mem_append] at hc hbase hrest
    rcases hc with (((hc | hc) | hc) | hc) | hc
    · exact hbase c (by simp [hc])
    · exact hbase c (by simp [hc])
    · exact hbase c (by simp [hc])
    · split at hc
      · rename_i hnone
        exact hquery (hhash hnone) c hc
      · exact hrest c (by simp [hc])
    · exact hrest c (by simp [hc])
  · rw [hv] at hc
    simp only [rest, List.mem_append] at hc hbase hrest
    rcases hc with (((hc | hc) | hc) | hc) | hc
    · exact hbase c (by simp [hc])
    · rcases mem_mergePaths hc with rfl | hc | hc
      · decide
      · exact hbase c (by simp [hc])
      · exact hrest c (by simp [hc])
    all_goals exact hrest c (by simp [hc])

/-- A word is written as a word if the parts of the base that are written hold no white space. -/
theorem solid_written (hfaithful : Faithful base) (hunspaced : Unspaced base)
    (hne : ref ≠ []) (href : Solid ref) (h : join base ref = .ok uri)
    (hw : written base uri = .ok w) : w ≠ [] ∧ Solid w := by
  obtain ⟨b, hb, hkind⟩ := hfaithful
  split at hkind
  · rename_i hrel
    obtain ⟨htext, hsteady⟩ := hkind
    rw [join_eq hb (ne_nil_of_parse hb hsteady.anchored) hne] at h
    obtain ⟨r, hr, huri⟩ := Result.map_ok.1 h
    split at huri
    · rename_i hsame
      subst huri
      have hlocated := (hsteady.anchored.resolve hrel hsame.1).located
      have hlegible := legible_resolve hb hrel hr hsame.1 hlocated
      by_cases hdocument : ({ resolve b r with fragment := [] } : Uri).text = base
      · have hfragment : (resolve b r).fragment = r.fragment := fragment_resolve (hsame.1 ▸ hrel)
        rw [written_of_eq (hdocument ▸ hlegible.defragment_text), hfragment] at hw
        rw [← Except.ok.inj hw]
        refine ⟨List.cons_ne_nil _ _, List.forall_mem_cons.2 ⟨by decide, fun c hc => ?_⟩⟩
        exact solid_rest_of_parseWith hr href c (List.mem_append_right _ hc)
      · rw [written_of_ne hlegible.defragment_text hdocument] at hw
        rw [← Except.ok.inj hw]
        exact ⟨text_ne_nil_of_located hlegible.relative hlocated,
          solid_resolve hunspaced hb hrel htext hr hsame.1 href hdocument⟩
    · rename_i hother
      subst huri
      rw [written_other hb hr fun hscheme => hother ⟨hscheme, hrel⟩] at hw
      rw [← Except.ok.inj hw]
      exact ⟨hne, href⟩
  · rename_i hrel
    obtain ⟨rfl, u, hu⟩ := join_kept hb (List.ne_nil_of_mem hkind) hne (by simpa using hrel) h
    rw [written_of_hash hu hkind] at hw
    rw [← Except.ok.inj hw]
    exact ⟨hne, href⟩

/-! ## Words that are written -/

/-- A text with an authority begins with no white space. -/
theorem head_text_of_located (hrel : relativeSchemes.contains (String.ofList v.scheme) = true)
    (h : v.Located) {c : Char} (hc : v.text.head? = some c) : Text.isBlank c = false := by
  rw [text_of_located hrel h, schemeMark] at hc
  rcases relative_cases hrel with hempty | ⟨d, ds, hcons, -, hchars, -⟩
  · rw [hempty] at hc
    rw [← Option.some.inj hc]
    decide
  · rw [hcons] at hc
    rw [← Option.some.inj hc]
    exact not_isBlank_of_isSchemeChar (List.all_eq_true.1 hchars d List.mem_cons_self)

theorem mem_marked_of_mem (sep : Char) {c : Char} {cs : List Char} (h : c ∈ cs) :
    c ∈ marked sep cs := by
  rw [marked, if_neg (by simpa using List.ne_nil_of_mem h)]
  exact List.mem_cons_of_mem sep h

/-- A text with an authority holds the characters of its parts. -/
theorem mem_text_of_located (hrel : relativeSchemes.contains (String.ofList v.scheme) = true)
    (h : v.Located) {c : Char} (hc : c ∈ v.authority ++ v.path ++ v.params ++ v.query) :
    c ∈ v.text := by
  have hpath : c ∈ v.path → c ∈ v.rooted.path := by
    intro hc
    unfold rooted
    simp only
    split
    · exact hc
    · exact List.mem_cons_of_mem _ hc
  rw [text_of_located hrel h, afterAuthority]
  simp only [List.mem_append, List.mem_cons] at hc ⊢
  rcases hc with ((hc | hc) | hc) | hc
  · simp [hc]
  · simp [hpath hc]
  · simp [mem_marked_of_mem ';' hc]
  · simp [mem_marked_of_mem '?' hc]

/-- What is written of a text that ends with no white space is one word only if it holds none. -/
theorem solid_of_wordsOf (hrel : relativeSchemes.contains (String.ofList v.scheme) = true)
    (h : v.Located) (hlast : ∀ c, v.text.getLast? = some c → Text.isBlank c = false)
    (hword : (wordsOf (String.ofList v.text)).length ≤ 1) : Solid v.text := by
  intro c hc
  by_contra hblank
  have htwo := Text.two_le_length_runs (fun d => head_text_of_located hrel h) hlast
    (by simpa using hblank) hc
  rw [wordsOf, List.length_map, String.toList_ofList] at hword
  omega

theorem getLast_text_requeried {c : Char} (hc : b.requeried.text.getLast? = some c) :
    Text.isBlank c = false := by
  have htext : ∃ front, b.requeried.text = front ++ (['?'] ++ b.otherQuery ++ []) :=
    ⟨_, List.append_assoc _ _ _⟩
  obtain ⟨front, htext⟩ := htext
  rw [htext, List.append_nil, List.getLast?_append_of_ne_nil _ (by simp),
    List.getLast?_append_of_ne_nil _ (otherQuery_ne_nil b)] at hc
  rw [List.eq_of_mem_replicate (List.mem_of_getLast? hc)]
  decide

theorem getLast_text_fragment {c : Char}
    (hc : ({ b with fragment := ['f'] } : Uri).text.getLast? = some c) :
    Text.isBlank c = false := by
  have hlast : ({ b with fragment := ['f'] } : Uri).text.getLast? = some 'f' := by
    rw [text_fragment]
    exact List.getLast?_append_of_ne_nil _ (by decide)
  rw [hlast] at hc
  rw [← Option.some.inj hc]
  decide

/-- Each word that is read is written as a single word at most. -/
def WritesWords (base : List Char) : Prop :=
  ∀ ref uri, ref ≠ [] → Solid ref → join base ref = .ok uri →
    ∃ w, written base uri = .ok w ∧ (wordsOf (String.ofList w)).length ≤ 1

/-- What is written as it is holds no white space, where words are written as single words. -/
theorem WritesWords.solid_text (h : WritesWords base) (hne : ref ≠ []) (href : Solid ref)
    (hjoin : join base ref = .ok v.text)
    (hwritten : written base v.text = .ok v.text) (hv : v.Legible) (hlocated : v.Located)
    (hlast : ∀ c, v.text.getLast? = some c → Text.isBlank c = false) : Solid v.text := by
  obtain ⟨w, hw, hword⟩ := h ref v.text hne href hjoin
  rw [hwritten] at hw
  rw [← Except.ok.inj hw] at hword
  exact solid_of_wordsOf hv.relative hlocated hlast hword

/-- Where words are written as single words, the parts of the base that are written hold no white
space. -/
theorem WritesWords.unspaced (hwords : WritesWords base) (hfaithful : Faithful base) :
    Unspaced base := by
  intro b hb hrel
  obtain ⟨b', hb', hkind⟩ := hfaithful
  obtain rfl := Except.ok.inj (hb.symm.trans hb')
  rw [if_pos hrel] at hkind
  obtain ⟨htext, hsteady⟩ := hkind
  constructor
  · obtain ⟨hjoin, hlegible, hlocated, hwritten⟩ := requeried_spec hb hsteady.anchored hrel
    have href : Solid ('?' :: b.otherQuery) := by
      refine List.forall_mem_cons.2 ⟨by decide, fun c hc => ?_⟩
      rw [List.eq_of_mem_replicate hc]
      decide
    have hsolid := hwords.solid_text (List.cons_ne_nil _ _) href hjoin hwritten hlegible hlocated
      fun c => getLast_text_requeried
    intro c hc
    exact hsolid c (mem_text_of_located hlegible.relative hlocated (List.mem_append_left _ hc))
  · intro hhash
    have hlegible : ({ b with fragment := ['f'] } : Uri).Legible :=
      legible_of_parse hb hrel (List.forall_mem_singleton.2 (by decide))
    have hlocated : ({ b with fragment := ['f'] } : Uri).Located := hsteady.anchored.located
    have hjoin : join base ['#', 'f'] = .ok ({ b with fragment := ['f'] } : Uri).text := by
      rw [join_fragment, hb, Except.map, if_neg (by simpa [List.ne_nil_of_mem hhash] using hrel),
        text_fragment b ['f']]
      rfl
    have href : Solid ['#', 'f'] :=
      List.forall_mem_cons.2 ⟨by decide, List.forall_mem_singleton.2 (by decide)⟩
    have hsolid := hwords.solid_text (List.cons_ne_nil _ _) href hjoin
      (written_of_hash (hlegible.parse_located hlocated) hhash) hlegible hlocated fun c =>
        getLast_text_fragment
    intro c hc
    exact hsolid c (mem_text_of_located hlegible.relative hlocated (List.mem_append_right _ hc))

end Uri

/-! ## References of a description -/

section References

open Reader

variable {base : String} {pos : Position}

/-- Joining texts is joining their characters. -/
theorem joinUri_eq_ok {ref uri : String} :
    joinUri base ref = .ok uri ↔ Uri.join base.toList ref.toList = .ok uri.toList := by
  unfold joinUri
  cases Uri.join base.toList ref.toList with
  | error e => exact ⟨fun h => (nomatch h), fun h => (nomatch h)⟩
  | ok cs =>
    rw [Except.map, Except.ok.injEq, Except.ok.injEq]
    constructor
    · rintro rfl
      exact String.toList_ofList.symm
    · rintro rfl
      exact String.ofList_toList

theorem joinUri_ofList {ref uri : List Char} :
    joinUri base (String.ofList ref) = .ok (String.ofList uri) ↔
    Uri.join base.toList ref = .ok uri := by
  rw [joinUri_eq_ok, String.toList_ofList, String.toList_ofList]

theorem written_eq_ok {r : Reference} {w : String} :
    r.written base = .ok w ↔ Uri.written base.toList r.href.toList = .ok w.toList := by
  unfold Reference.written Reference.target defragmentUri Uri.written
  cases Uri.defragment r.href.toList with
  | error e => exact ⟨fun h => (nomatch h), fun h => (nomatch h)⟩
  | ok parts =>
    obtain ⟨document, fragment⟩ := parts
    have hdocument : String.ofList document = base ↔ document = base.toList := by
      rw [← String.toList_inj, String.toList_ofList]
    show Except.ok
      (if String.ofList document = base then "#" ++ String.ofList fragment else r.href) = _ ↔
      Except.ok (if document = base.toList then '#' :: fragment else r.href.toList) = _
    rw [Except.ok.injEq, Except.ok.injEq, ← String.toList_inj]
    by_cases hlocal : document = base.toList
    · rw [if_pos hlocal, if_pos (hdocument.2 hlocal)]
      simp
    · rw [if_neg hlocal, if_neg fun h => hlocal (hdocument.1 h)]

/-- A reference that can be joined is read. -/
theorem reference_eq {kind : DefinitionKind} {href uri : String}
    (h : joinUri pos.base href = .ok uri) :
    reference pos kind href = pure ⟨kind, uri, "/".intercalate pos.path⟩ := by
  rw [reference, h]

/-- And what is read was joined. -/
theorem yields_reference {kind : DefinitionKind} {href : String} {r : Reference}
    (h : Yields (reference pos kind href) r) :
    joinUri pos.base href = .ok r.href ∧ r = ⟨kind, r.href, "/".intercalate pos.path⟩ := by
  cases hjoin : joinUri pos.base href with
  | error e =>
    rw [reference, hjoin] at h
    exact absurd h not_yields_throw
  | ok uri =>
    rw [reference_eq hjoin] at h
    rw [← h.pure]
    exact ⟨rfl, rfl⟩

/-- What survives of a reference: its text is joined with the base to the reference again. -/
def Reference.Survives (base : String) (r : Reference) : Prop :=
  ∃ w, r.written base = .ok w ∧ joinUri base w = .ok r.href

/-- Whether a reference survives is a question about URIs only. -/
theorem survives_iff {r : Reference} :
    r.Survives base ↔ Uri.Survives base.toList r.href.toList := by
  constructor
  · rintro ⟨w, hw, hjoin⟩
    exact ⟨w.toList, written_eq_ok.1 hw, joinUri_eq_ok.1 hjoin⟩
  · rintro ⟨w, hw, hjoin⟩
    refine ⟨String.ofList w, written_eq_ok.2 ?_, joinUri_eq_ok.2 ?_⟩
    · rwa [String.toList_ofList]
    · rwa [String.toList_ofList]

/-- References that are read from a list of words are written as words from which they are read
again. -/
def TypesSurvive (base : String) : Prop :=
  ∀ pos value types, pos.base = base →
    Yields ((wordsOf value).mapM (reference pos .resourceType)) types →
      ∃ texts, types.mapM (·.written base) = .ok texts ∧
        Always ((wordsOf ((Render.words texts).getD "")).mapM (reference pos .resourceType)) types

/-- A single word is cut into itself. -/
theorem wordsOf_word {w : String} (h : IsWord w) : wordsOf w = [w] := by
  have hwords : wordsOf (" ".intercalate [w]) = [w] :=
    wordsOf_intercalate fun v hv => (List.mem_singleton.1 hv).symm ▸ h
  rwa [String.intercalate_singleton] at hwords

theorem isWord_ofList {cs : List Char} : IsWord (String.ofList cs) ↔ cs ≠ [] ∧ Uri.Solid cs := by
  rw [IsWord, String.toList_ofList, Uri.Solid, ne_eq, String.ofList_eq_empty_iff]

/-- A word is written as a word that is joined to the same reference. -/
theorem word_survives (hfaithful : Uri.Faithful base.toList)
    (hunspaced : Uri.Unspaced base.toList) {r : Reference} {href : String} (hword : IsWord href)
    (h : joinUri base href = .ok r.href) :
    ∃ w, r.written base = .ok w ∧ IsWord w ∧ joinUri base w = .ok r.href := by
  obtain ⟨w, hw, hjoin⟩ := survives_iff.2 (Uri.survives_of_faithful hfaithful (joinUri_eq_ok.1 h))
  obtain ⟨hne, hsolid⟩ :=
    Uri.solid_written hfaithful hunspaced (by simpa using hword.1) hword.2 (joinUri_eq_ok.1 h)
    (written_eq_ok.1 hw)
  exact ⟨w, hw, ⟨by simpa using hne, hsolid⟩, hjoin⟩

/-- Types of resources survive if references do and no joined one holds white space. -/
theorem typesSurvive_of_faithful (hfaithful : Uri.Faithful base.toList)
    (hunspaced : Uri.Unspaced base.toList) : TypesSurvive base := by
  rintro pos value types rfl hread
  have htexts : ∃ texts, types.mapM (·.written pos.base) = .ok texts ∧ (∀ t ∈ texts, IsWord t) ∧
      List.Forall₂ (fun t r => Always (reference pos .resourceType t) r) texts types := by
    have hwords : ∀ w ∈ wordsOf value, IsWord w := fun w => isWord_of_mem_wordsOf
    generalize wordsOf value = words at hread hwords
    have hall := hread.mapM
    clear hread
    induction hall with
    | nil => exact ⟨[], rfl, fun t ht => (nomatch ht), .nil⟩
    | @cons href r words types hr _ ih =>
      obtain ⟨hword, hwords⟩ := List.forall_mem_cons.1 hwords
      obtain ⟨texts, hwritten, htexts, hrest⟩ := ih hwords
      obtain ⟨hjoin, hself⟩ := yields_reference hr
      obtain ⟨w, hw, hwword, hagain⟩ := word_survives hfaithful hunspaced hword hjoin
      refine ⟨w :: texts, ?_, List.forall_mem_cons.2 ⟨hwword, htexts⟩, .cons ?_ hrest⟩
      · rw [List.mapM_cons, hw, hwritten]
        rfl
      · rw [reference_eq hagain]
        exact always_pure_of_eq hself.symm
  obtain ⟨texts, hwritten, hwords, hagain⟩ := htexts
  refine ⟨texts, hwritten, ?_⟩
  rw [words_getD, wordsOf_intercalate hwords]
  exact Always.mapM hagain

/-- And they do not survive white space. -/
theorem unspaced_of_typesSurvive (hfaithful : Uri.Faithful base.toList) (h : TypesSurvive base) :
    Uri.Unspaced base.toList := by
  refine Uri.WritesWords.unspaced (fun ref uri hne hsolid hjoin => ?_) hfaithful
  have hword : IsWord (String.ofList ref) := isWord_ofList.2 ⟨hne, hsolid⟩
  have hread : reference ⟨base, true, []⟩ .resourceType (String.ofList ref) =
      pure ⟨.resourceType, String.ofList uri, ""⟩ := reference_eq (joinUri_ofList.2 hjoin)
  have hreads : Always
      ((wordsOf (String.ofList ref)).mapM (reference ⟨base, true, []⟩ .resourceType))
      [⟨.resourceType, String.ofList uri, ""⟩] := by
    rw [wordsOf_word hword]
    exact Always.mapM (.cons (hread ▸ always_pure _) .nil)
  obtain ⟨texts, hwritten, hagain⟩ := h _ _ _ rfl (hreads.yields [])
  have hsingle := Result.mapM_ok.1 hwritten
  rw [List.forall₂_cons_left_iff] at hsingle
  obtain ⟨w, none, hw, hnone, rfl⟩ := hsingle
  rw [List.forall₂_nil_left_iff.1 hnone] at hagain
  have hlength := (hagain.yields []).mapM.length_eq
  rw [words_getD, String.intercalate_singleton] at hlength
  have hw : Uri.written base.toList uri = .ok w.toList := by
    rw [← written_eq_ok.1 hw, String.toList_ofList]
  refine ⟨w.toList, hw, ?_⟩
  rw [String.ofList_toList, hlength]
  rfl

/-- References survive writing and reading again, alone and in lists of words, just if the base is
faithful and the parts of it that are written with references hold no white space. -/
theorem references_survive_iff :
    ((∀ pos kind href r, pos.base = base → Yields (reference pos kind href) r → r.Survives base) ∧
      TypesSurvive base) ↔ Uri.Faithful base.toList ∧ Uri.Unspaced base.toList := by
  constructor
  · rintro ⟨hall, htypes⟩
    have hfaithful : Uri.Faithful base.toList := by
      refine Uri.faithful_iff.2 fun ref uri hjoin => ?_
      have hread : reference ⟨base, true, []⟩ .param (String.ofList ref) =
          pure ⟨.param, String.ofList uri, ""⟩ :=
        reference_eq (joinUri_ofList.2 hjoin)
      have hsurvives := hall _ _ _ _ rfl ((hread ▸ always_pure _ : Always _ _).yields [])
      rw [survives_iff, String.toList_ofList] at hsurvives
      exact hsurvives
    exact ⟨hfaithful, unspaced_of_typesSurvive hfaithful htypes⟩
  · rintro ⟨hfaithful, hunspaced⟩
    refine ⟨?_, typesSurvive_of_faithful hfaithful hunspaced⟩
    rintro pos kind href r rfl hread
    exact survives_iff.2
      (Uri.survives_of_faithful hfaithful (joinUri_eq_ok.1 (yields_reference hread).1))

end References

end Wadl
