import Wadl.Proofs.Uri.Normal

/-!
# Resolved references

A path whose dots are resolved is left as it is when it is resolved once more
(`mergePaths_of_dotFree`). So the text of a reference that was resolved against a base with an
authority, or with a scheme and no dots in its path, is joined with the base to itself
(`join_text_resolve`).
-/

namespace Wadl.Uri

/-! ## Paths without dots -/

/-- A segment that is not made of dots. -/
def IsName (segment : List Char) : Prop := segment ≠ ['.'] ∧ segment ≠ ['.', '.']

instance (segment : List Char) : Decidable (IsName segment) := inferInstanceAs (Decidable (_ ∧ _))

/-- A path without segments that are made of dots. -/
def DotFree (path : List Char) : Prop := ∀ s ∈ Text.pieces (· == '/') path, IsName s

instance (path : List Char) : Decidable (DotFree path) :=
  inferInstanceAs (Decidable (∀ s ∈ Text.pieces (· == '/') path, IsName s))

section DotFree

variable {path : List Char} {segments done : List (List Char)}

/-- Once dots are removed, only names are left. -/
theorem isName_of_mem_removeDots {s : List Char} :
    ∀ {segments done : List (List Char)},
      (∀ d ∈ done, IsName d) → s ∈ removeDots done segments → IsName s
  | [], done, hdone, hs => hdone s (List.mem_reverse.1 hs)
  | segment :: rest, done, hdone, hs => by
    unfold removeDots at hs
    split at hs
    · exact isName_of_mem_removeDots (fun d hd => hdone d (List.mem_of_mem_drop hd)) hs
    · rename_i hdots
      split at hs
      · exact isName_of_mem_removeDots hdone hs
      · rename_i hdot
        exact isName_of_mem_removeDots (List.forall_mem_cons.2 ⟨⟨hdot, hdots⟩, hdone⟩) hs

/-- With names only, there is nothing to remove. -/
theorem removeDots_of_isName :
    ∀ {segments done : List (List Char)}, (∀ s ∈ segments, IsName s) →
      removeDots done segments = done.reverse ++ segments
  | [], done, _ => by rw [removeDots, List.append_nil]
  | segment :: rest, done, h => by
    obtain ⟨⟨hdot, hdots⟩, hrest⟩ := List.forall_mem_cons.1 h
    rw [removeDots, if_neg hdots, if_neg hdot, removeDots_of_isName hrest,
      List.reverse_cons, List.append_assoc, List.singleton_append]

/-- What is left of the segments of a merged path is what its text is cut into again. -/
theorem pieces_mergePaths (base path : List Char) :
    mergePaths base path = ['/'] ∨ Text.pieces (· == '/') (mergePaths base path) =
      resolvedSegments (mergedSegments base path) := by
  obtain ⟨xs, hxs⟩ := mergedSegments_append base path
  obtain ⟨ys, y, hys, -, hmem⟩ := resolvedSegments_append xs (splitLastSegment path).2
  rw [← hxs] at hys hmem
  rw [mergePaths_eq]
  split
  · exact Or.inl rfl
  · refine Or.inr (Text.pieces_intercalate (by decide) (by simp [hys]) fun s hs c hc => ?_)
    rcases hmem s (hys ▸ hs) with rfl | hs
    · cases hc
    · rcases mem_pieces_of_mem_mergedSegments hs with hs | hs <;>
        exact (Text.mem_of_mem_pieces hs hc).2

/-- The segments of a resolved path are names. -/
theorem isName_of_mem_resolvedSegments {s : List Char} (h : s ∈ resolvedSegments segments) :
    IsName s := by
  have hremoved : s ∈ removeDots [] segments → IsName s := isName_of_mem_removeDots fun d hd => by
    cases hd
  unfold resolvedSegments at h
  split at h
  · rcases List.mem_append.1 h with h | h
    · exact hremoved h
    · rw [List.mem_singleton.1 h]
      decide
  · exact hremoved h

/-- No segment of a merged path is made of dots. -/
theorem dotFree_mergePaths (base path : List Char) : DotFree (mergePaths base path) := by
  intro s hs
  rcases pieces_mergePaths base path with hroot | hpieces
  · rw [hroot] at hs
    exact (by decide : DotFree ['/']) s hs
  · rw [hpieces] at hs
    exact isName_of_mem_resolvedSegments hs

theorem mergePaths_ne_nil (base path : List Char) : mergePaths base path ≠ [] := by
  rw [mergePaths_eq]
  split
  · exact List.cons_ne_nil _ _
  · rename_i h
    simpa using h

/-- Segments that are names are resolved already. -/
theorem resolvedSegments_of_isName (h : ∀ s ∈ segments, IsName s) :
    resolvedSegments segments = segments := by
  have hlast : IsName (segments.getLast?.getD []) := by
    cases hsegments : segments.getLast? with
    | none => decide
    | some s => exact h s (List.mem_of_getLast? hsegments)
  rw [resolvedSegments, if_neg (not_or.2 hlast), removeDots_of_isName h]
  rfl

/-- A path without dots that begins with a slash is merged to itself. -/
theorem mergePaths_of_dotFree (base : List Char) (hhead : path.head? = some '/')
    (h : DotFree path) : mergePaths base path = path := by
  have hmerged : mergedSegments base path = Text.pieces (· == '/') path := by
    rw [mergedSegments, hhead]
    rfl
  have hne : path.isEmpty = false := by
    rw [List.isEmpty_eq_false_iff]
    rintro rfl
    cases hhead
  rw [mergePaths_eq, hmerged, resolvedSegments_of_isName h, Text.intercalate_pieces, hne,
    if_neg Bool.false_ne_true]

theorem DotFree.cons_slash (h : DotFree path) : DotFree ('/' :: path) := by
  intro s hs
  rw [Text.pieces, if_pos (beq_self_eq_true '/')] at hs
  rcases List.mem_cons.1 hs with rfl | hs
  · decide
  · exact h s hs

theorem dotFree_rooted {u : Uri} (h : DotFree u.path) : DotFree u.rooted.path := by
  unfold rooted
  simp only
  split
  · exact h
  · exact h.cons_slash

end DotFree

/-! ## Reading with any scheme -/

section Read

variable {u b r : Uri} {base ref cs default : List Char}

theorem isAsciiLetter_lowerAscii {c : Char} (h : CharClass.isAsciiLetter c = true) :
    CharClass.isAsciiLetter (lowerAscii c) = true := by
  unfold lowerAscii
  split
  · rename_i hupper
    have hrange := CharClass.isAsciiUpper_iff.1 hupper
    have hall : ∀ n < 91, 65 ≤ n → CharClass.isAsciiLetter (Char.ofNat (n + 32)) = true := by decide
    exact hall c.toNat (by omega) hrange.1
  · exact h

theorem lowerAscii_lowerAscii (c : Char) : lowerAscii (lowerAscii c) = lowerAscii c := by
  by_cases hupper : CharClass.isAsciiUpper c = true
  · have hrange := CharClass.isAsciiUpper_iff.1 hupper
    have hall : ∀ n < 91, 65 ≤ n → lowerAscii (Char.ofNat (n + 32)) = Char.ofNat (n + 32) := by
      decide
    have hlower : lowerAscii c = Char.ofNat (c.toNat + 32) := if_pos hupper
    rw [hlower, hall c.toNat (by omega) hrange.1]
  · have hsame : lowerAscii c = c := if_neg hupper
    rw [hsame, hsame]

/-- A scheme that was read begins with a letter and is written in small letters. -/
theorem scheme_of_parse (h : parse cs = .ok u) (hscheme : u.scheme ≠ []) :
    ∃ c tail, u.scheme = c :: tail ∧
    CharClass.isAsciiLetter c = true ∧ (c :: tail).all isSchemeChar = true ∧
      (c :: tail).map lowerAscii = c :: tail := by
  obtain ⟨after, rest, before, full, hsplit, -⟩ := parseWith_ok.1 h
  unfold splitScheme at hsplit
  simp only at hsplit
  split at hsplit
  · rename_i c tail _ hbefore
    rw [hbefore] at hsplit
    split at hsplit
    · rename_i hchars
      rw [Bool.and_eq_true, List.all_eq_true] at hchars
      refine ⟨lowerAscii c, tail.map lowerAscii, (Prod.mk.inj hsplit).1.symm,
        isAsciiLetter_lowerAscii hchars.1,
        List.all_eq_true.2 fun d hd => ?_, by simp [lowerAscii_lowerAscii]⟩
      obtain ⟨e, he, rfl⟩ := List.mem_map.1 (show d ∈ (c :: tail).map lowerAscii from hd)
      exact isSchemeChar_lowerAscii (hchars.2 e he)
    · exact absurd (Prod.mk.inj hsplit).1.symm hscheme
  · exact absurd (Prod.mk.inj hsplit).1.symm hscheme

/-- A text with a scheme has no other scheme when it is read. -/
theorem scheme_of_parse_text (hr : parse ref = .ok r) (hscheme : r.scheme ≠ [])
    {fragment : List Char} (hu : parse ({ r with fragment } : Uri).text = .ok u) :
    u.scheme = r.scheme := by
  obtain ⟨c, tail, hcons, hletter, hchars, hlower⟩ := scheme_of_parse hr hscheme
  obtain ⟨after, rest, before, full, hsplit, -⟩ := parseWith_ok.1 hu
  have htext : ∃ more, ({ r with fragment } : Uri).text = c :: tail ++ ':' :: more := by
    unfold text
    simp [hcons]
  obtain ⟨more, htext⟩ := htext
  have hcleaned : cleaned (c :: tail ++ ':' :: more) = c :: tail ++ ':' :: withoutBreaks more := by
    have hkept : (c :: tail).filter (fun d => d != '\t' && d != '\r' && d != '\n') = c :: tail := by
      rw [List.filter_eq_self]
      intro d hd
      have hd := List.all_eq_true.1 hchars d hd
      simp only [Bool.and_eq_true, bne_iff_ne]
      refine ⟨⟨?_, ?_⟩, ?_⟩ <;> rintro rfl <;> exact absurd hd (by decide)
    have hhead : ¬c.toNat ≤ 0x20 := by
      have hcase : CharClass.isAsciiLower c = true ∨ CharClass.isAsciiUpper c = true :=
        Bool.or_eq_true_iff.1 hletter
      rw [CharClass.isAsciiLower_iff, CharClass.isAsciiUpper_iff] at hcase
      omega
    rw [cleaned, List.cons_append, List.dropWhile_cons_of_neg (by simpa using hhead),
      ← List.cons_append, List.filter_append, hkept]
    rfl
  rw [htext, hcleaned, splitScheme_colon hletter hchars hlower] at hsplit
  rw [hcons, (Prod.mk.inj hsplit).1]

/-- What is read without a scheme to take in its absence is read in the same way with its own. -/
theorem parseWith_of_parse (h : parse cs = .ok u) : parseWith u.scheme cs = .ok u := by
  obtain ⟨after, rest, before, full, hscheme, hparts⟩ := parseWith_ok.1 h
  refine parseWith_ok.2 ⟨after, rest, before, full, ?_, hparts⟩
  rcases splitScheme_cases (cleaned cs) with ⟨scheme, tail, -, hall⟩ | hall
  · rw [hall, ← hscheme, hall]
  · rw [hall] at hscheme ⊢
    rw [(Prod.mk.inj hscheme).2]

/-- What is read with a scheme to take in its absence is read without one. -/
theorem exists_parse (h : parseWith default cs = .ok u) : ∃ v, parse cs = .ok v := by
  obtain ⟨after, rest, before, full, hscheme, hauthority, hwellFormed, hfragment, hquery, -⟩ :=
    parseWith_ok.1 h
  have hafter : ∃ scheme, splitScheme [] (cleaned cs) = (scheme, after) := by
    rcases splitScheme_cases (cleaned cs) with ⟨scheme, tail, -, hall⟩ | hall
    · exact ⟨u.scheme, by rw [← hscheme, hall, hall]⟩
    · rw [hall] at hscheme ⊢
      exact ⟨[], by rw [(Prod.mk.inj hscheme).2]⟩
  obtain ⟨scheme, hafter⟩ := hafter
  exact ⟨⟨scheme, u.authority, (splitParams scheme full).1, (splitParams scheme full).2,
    u.query, u.fragment⟩,
    parseWith_ok.2 ⟨after, rest, before, full, hafter, hauthority, hwellFormed,
      hfragment, hquery, rfl⟩⟩

/-- The path and the params that are read are divided as they are when their text is read. -/
theorem params_of_parseWith (h : parseWith default cs = .ok u) :
    (paramSchemes.contains (String.ofList u.scheme) = true →
      ';' ∉ (splitLastSegment u.path).2 ∧ '/' ∉ u.params) ∧
      (paramSchemes.contains (String.ofList u.scheme) = false → u.params = []) := by
  obtain ⟨after, rest, before, full, -, -, -, -, -, hparams⟩ := parseWith_ok.1 h
  refine ⟨fun hin => splitParams_last hin hparams, fun hout => ?_⟩
  rw [splitParams, if_neg (by simpa using hout)] at hparams
  exact (Prod.mk.inj hparams).2.symm

/-- Parts with an authority, be it an empty one, that were read are legible. -/
theorem legible_of_parseWith (h : parseWith default cs = .ok u)
    (hrel : relativeSchemes.contains (String.ofList u.scheme) = true) (hlocated : u.Located) :
    u.Legible := by
  obtain ⟨hin, hout⟩ := params_of_parseWith h
  obtain ⟨-, -, -, -, -, -, hwellFormed, -⟩ := parseWith_ok.1 h
  exact ⟨hrel, hwellFormed, clean_of_parseWith h, hin, hout, kept_of_parseWith h,
    fun hbare => absurd hlocated hbare⟩

/-- Parts that were read are legible. -/
theorem legible_of_parse_self (h : parse cs = .ok u)
    (hrel : relativeSchemes.contains (String.ofList u.scheme) = true) : u.Legible :=
  legible_of_parse h hrel fun c hc => kept_of_parseWith h c (List.mem_append_right _ hc)

/-- A reference that was resolved is legible. -/
theorem legible_resolve (hb : parse base = .ok b)
    (hrel : relativeSchemes.contains (String.ofList b.scheme) = true)
    (hr : parseWith b.scheme ref = .ok r) (hscheme : r.scheme = b.scheme)
    (hlocated : (resolve b r).Located) : (resolve b r).Legible := by
  have hrrel : relativeSchemes.contains (String.ofList r.scheme) = true := hscheme ▸ hrel
  have howns := authority_of_relative hrrel
  have hbase := legible_of_parse_self hb hrel
  have hkept : ∀ c ∈ (resolve b r).rest, c ≠ '\t' ∧ c ≠ '\r' ∧ c ≠ '\n' := by
    intro c hc
    rcases mem_rest_resolve howns hc with rfl | hc | hc
    · decide
    · exact hbase.kept c hc
    · exact kept_of_parseWith hr c hc
  have hclean := clean_of_parseWith hr
  rcases resolve_cases (b := b) howns with ⟨-, hv⟩ | ⟨-, -, hv⟩ | ⟨-, -, hv⟩
  · rw [hv] at hlocated ⊢
    exact legible_of_parseWith hr hrrel hlocated
  · rw [hv, hscheme] at hkept hlocated ⊢
    refine ⟨hrel, hbase.wellFormed,
      ⟨hbase.clean.authority, hbase.clean.path, hbase.clean.params, ?_⟩, hbase.params,
      hbase.noParams, hkept, fun hbare => absurd hlocated hbare⟩
    simp only
    split
    · exact hbase.clean.query
    · exact hclean.query
  · obtain ⟨hin, hout⟩ := params_of_parseWith hr
    rw [hv] at hkept hlocated ⊢
    refine ⟨hrrel, hbase.wellFormed,
      ⟨hbase.clean.authority, fun c hc => ?_, hclean.params, hclean.query⟩,
      fun hscheme => ⟨?_, (hin hscheme).2⟩, hout, hkept, fun hbare => absurd hlocated hbare⟩
    · rcases mem_mergePaths hc with rfl | hc | hc
      · decide
      · exact hbase.clean.path c hc
      · exact hclean.path c hc
    · rcases last_mergePaths b.path r.path with hlast | hlast
      · rw [hlast]
        exact (hin hscheme).1
      · rw [hlast]
        exact List.not_mem_nil

/-- Legible parts are divided into their document and their fragment. -/
theorem Legible.defragment_text (h : u.Legible) :
    defragment u.text = .ok (({ u with fragment := [] } : Uri).text, u.fragment) := by
  unfold defragment
  split
  · obtain ⟨v, hv, hfragment, htext⟩ := h.parse_text
    rw [hv]
    show Except.ok (_, _) = Except.ok (_, _)
    rw [htext, hfragment]
  · rename_i hhash
    have hnone : u.fragment = [] := by
      by_contra hne
      refine hhash ?_
      rw [text_fragment u u.fragment, marked, if_neg (by simpa using hne)]
      simp
    have hself : ({ u with fragment := [] } : Uri) = u := by rw [← hnone]
    rw [hself, hnone]
    rfl

/-! ## Resolving once more -/

/-- The path of a text with an authority begins with a slash, unless there is nothing before its
query. -/
theorem rooted_cases (u : Uri) :
    (u.path = [] ∧ u.params = [] ∧ u.rooted = u) ∨ u.rooted.path.head? = some '/' := by
  unfold rooted
  simp only
  split
  · rename_i h
    rcases Bool.or_eq_true_iff.1 h with hempty | hslash
    · rw [List.isEmpty_iff, List.append_eq_nil_iff] at hempty
      refine Or.inl ⟨hempty.1, ?_, rfl⟩
      by_contra hparams
      rw [marked, if_neg (by simpa using hparams)] at hempty
      cases hempty.2
    · refine Or.inr ?_
      cases hpath : u.path with
      | nil =>
        rw [hpath, List.nil_append, marked] at hslash
        split at hslash <;> cases hslash
      | cons c cs => simpa [hpath] using hslash
  · exact Or.inr rfl

/-- Resolved parts are resolved to themselves as they are read again: those with an authority of
their own always, others if their path has no dots and the base has neither an authority nor, where
they have none, a path. -/
theorem resolve_rooted {v : Uri} (hrel : relativeSchemes.contains (String.ofList v.scheme) = true)
    (hbare : v.authority = [] → b.authority = [] ∧ DotFree v.path ∧
      (v.path = [] → v.params = [] → b.path = [] ∧ b.params = [] ∧ (v.query = [] → b.query = []))) :
    resolve b v.rooted = v.rooted := by
  have howns : authoritySchemes.contains (String.ofList v.rooted.scheme) = true :=
    authority_of_relative hrel
  rcases resolve_cases (b := b) howns with
    ⟨-, hv⟩ | ⟨hauthority, hempty, hv⟩ | ⟨hauthority, hempty, hv⟩
  · exact hv
  · rcases rooted_cases v with ⟨hpath, hparams, hself⟩ | hslash
    · obtain ⟨hb, -, hbase⟩ := hbare hauthority
      obtain ⟨hbpath, hbparams, hquery⟩ := hbase hpath hparams
      have hkept : (if v.query.isEmpty then b.query else v.query) = v.query := by
        split
        · rename_i hnone
          rw [hquery (List.isEmpty_iff.1 hnone), List.isEmpty_iff.1 hnone]
        · rfl
      have hnone : v.authority = [] := hauthority
      rw [hself] at hv ⊢
      rw [hv]
      obtain ⟨scheme, authority, path, params, query, fragment⟩ := v
      simp only at hkept hpath hparams hnone
      simp only [hkept, hb, hbpath, hbparams, hpath, hparams, hnone]
    · rw [hempty.1] at hslash
      cases hslash
  · obtain ⟨hb, hdots, -⟩ := hbare hauthority
    rcases rooted_cases v with ⟨hpath, hparams, hself⟩ | hslash
    · rw [hself] at hempty
      exact absurd ⟨hpath, hparams⟩ hempty
    · rw [hv, mergePaths_of_dotFree b.path hslash (dotFree_rooted hdots), hb, ← hauthority]

/-- Parts with a scheme or an authority. -/
def Anchored (u : Uri) : Prop := u.scheme ≠ [] ∨ u.authority ≠ []

theorem Anchored.located (h : u.Anchored) : u.Located := h.imp_right Or.inl

/-- Resolving against an anchored base yields an anchored URI. -/
theorem Anchored.resolve (h : b.Anchored)
    (hrel : relativeSchemes.contains (String.ofList b.scheme) = true)
    (hscheme : r.scheme = b.scheme) : (resolve b r).Anchored := by
  have howns :=
    authority_of_relative
      (hscheme ▸ hrel : relativeSchemes.contains (String.ofList r.scheme) = true)
  rcases resolve_cases (b := b) howns with ⟨hauthority, hv⟩ | ⟨-, -, hv⟩ | ⟨-, -, hv⟩
  · rw [hv]
    exact Or.inr hauthority
  · rw [hv]
    exact h.imp_left (hscheme ▸ ·)
  · rw [hv]
    exact h.imp_left (hscheme ▸ ·)

/-- A base against which references are resolved once and for all. -/
def Steady (b : Uri) : Prop := b.authority ≠ [] ∨ b.scheme ≠ [] ∧ DotFree b.path

instance (b : Uri) : Decidable b.Steady := inferInstanceAs (Decidable (_ ∨ _))

theorem Steady.anchored (h : b.Steady) : b.Anchored := h.symm.imp_left And.left

/-- Against a steady base, what was resolved stays where it is when it is resolved again. -/
theorem Steady.resolve_resolve (h : b.Steady)
    (hrel : relativeSchemes.contains (String.ofList b.scheme) = true)
    (hscheme : r.scheme = b.scheme) : resolve b (resolve b r).rooted = (resolve b r).rooted := by
  have hrrel : relativeSchemes.contains (String.ofList r.scheme) = true := hscheme ▸ hrel
  have hdots : b.authority = [] → DotFree b.path :=
    fun hnone => (h.resolve_left (not_not_intro hnone)).2
  rcases resolve_cases (b := b) (authority_of_relative hrrel) with
    ⟨hauthority, hv⟩ | ⟨-, hempty, hv⟩ | ⟨-, hempty, hv⟩
  · rw [hv]
    exact resolve_rooted hrrel fun hnone => absurd hnone hauthority
  · rw [hv]
    refine resolve_rooted hrrel fun hnone =>
      ⟨hnone, hdots hnone, fun hpath hparams => ⟨hpath, hparams, ?_⟩⟩
    simp only
    split
    · exact id
    · rename_i hquery
      exact fun h => absurd (List.isEmpty_iff.2 h) hquery
  · rw [hv]
    refine resolve_rooted hrrel fun hnone =>
      ⟨hnone, dotFree_mergePaths _ _, fun hpath => absurd hpath ?_⟩
    exact mergePaths_ne_nil b.path r.path

/-- How a reference is joined: one of the scheme of the base is resolved, one of another scheme is
kept. -/
theorem join_eq (hb : parse base = .ok b) (hbase : base ≠ []) (href : ref ≠ []) :
    join base ref = (parseWith b.scheme ref).map fun r =>
      if r.scheme = b.scheme ∧ relativeSchemes.contains (String.ofList b.scheme) =
        true then (resolve b r).text
      else ref := by
  unfold join
  rw [if_neg (by simpa using hbase), if_neg (by simpa using href), hb]
  simp only [bind, Except.bind]
  cases parseWith b.scheme ref with
  | error e => rfl
  | ok r =>
    have hother : (r.scheme ≠ b.scheme ∨
        (!relativeSchemes.contains (String.ofList r.scheme)) = true) ↔
        ¬(r.scheme = b.scheme ∧ relativeSchemes.contains (String.ofList b.scheme) = true) := by
      by_cases hscheme : r.scheme = b.scheme <;> simp [hscheme]
    simp only [Except.map]
    by_cases hsame : r.scheme = b.scheme ∧ relativeSchemes.contains (String.ofList b.scheme) = true
    · rw [if_neg fun h => hother.1 h hsame, if_pos hsame]
      rfl
    · rw [if_pos (hother.2 hsame), if_neg hsame]
      rfl

/-- Resolving keeps the scheme of the reference. -/
theorem scheme_resolve (hrel : relativeSchemes.contains (String.ofList r.scheme) = true) :
    (resolve b r).scheme = r.scheme := by
  rcases resolve_cases (b := b) (authority_of_relative hrel) with
    ⟨-, hv⟩ | ⟨-, -, hv⟩ | ⟨-, -, hv⟩ <;> rw [hv]

/-- And its fragment. -/
theorem fragment_resolve (hrel : relativeSchemes.contains (String.ofList r.scheme) = true) :
    (resolve b r).fragment = r.fragment := by
  rcases resolve_cases (b := b) (authority_of_relative hrel) with
    ⟨-, hv⟩ | ⟨-, -, hv⟩ | ⟨-, -, hv⟩ <;> rw [hv]

/-- A reference is kept if nothing is resolved against the base. -/
theorem join_kept (hb : parse base = .ok b) (hbase : base ≠ []) (href : ref ≠ [])
    (hrel : relativeSchemes.contains (String.ofList b.scheme) = false) {uri : List Char}
    (h : join base ref = .ok uri) : uri = ref ∧ ∃ u, parse ref = .ok u := by
  rw [join_eq hb hbase href] at h
  obtain ⟨r, hr, huri⟩ := Result.map_ok.1 h
  rw [if_neg fun hsame => Bool.false_ne_true (hrel.symm.trans hsame.2)] at huri
  exact ⟨huri.symm, exists_parse hr⟩

theorem text_ne_nil_of_located (hrel : relativeSchemes.contains (String.ofList u.scheme) = true)
    (h : u.Located) : u.text ≠ [] := by
  rw [text_of_located hrel h]
  simp

/-- A joined reference is joined to itself. -/
theorem join_text_resolve (hb : parse base = .ok b) (hbase : base ≠ [])
    (hrel : relativeSchemes.contains (String.ofList b.scheme) = true)
    (hr : parseWith b.scheme ref = .ok r) (hscheme : r.scheme = b.scheme) (hsteady : b.Steady) :
    join base (resolve b r).text = .ok (resolve b r).text := by
  have hlocated := (hsteady.anchored.resolve hrel hscheme).located
  have hlegible := legible_resolve hb hrel hr hscheme hlocated
  have hvscheme : (resolve b r).rooted.scheme = b.scheme :=
    (scheme_resolve (hscheme ▸ hrel)).trans hscheme
  have hparse : parseWith b.scheme (resolve b r).text = .ok (resolve b r).rooted :=
    hvscheme ▸ parseWith_of_parse (hlegible.parse_located hlocated)
  rw [join_eq hb hbase (text_ne_nil_of_located hlegible.relative hlocated), hparse]
  simp only [Except.map, if_pos (And.intro hvscheme hrel), hsteady.resolve_resolve hrel hscheme,
    text_rooted_of_located hlegible.relative hlocated]

end Read

end Wadl.Uri
