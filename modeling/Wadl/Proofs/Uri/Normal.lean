import Mathlib.Data.List.Basic
import Wadl.Proofs.Runs
import Wadl.Proofs.Uri.Rejoin
import Wadl.Text.CharClass

/-!
# Fragments of a base

A base is normal if it is the text of its parts, with no fragment and with a scheme whose references
are resolved (`IsNormal`). What is read of the text of parts that were read has the same text
(`Legible.parse_text`), so that a fragment that is joined with a base is a fragment of the base
again just for a normal base (`defragment_join_hash`).
-/

namespace Wadl.Uri

variable {u v : Uri} {cs : List Char}

/-- A base that is the text of its parts, with no fragment and with a scheme whose references are
resolved. -/
def IsNormal (base : List Char) : Prop :=
  ∃ u, parse base = .ok u ∧ relativeSchemes.contains (String.ofList u.scheme) = true ∧
    ({ u with fragment := [] } : Uri).text = base

instance (base : List Char) : Decidable (IsNormal base) :=
  match h : parse base with
  | .error _ => .isFalse fun ⟨_, hu, _⟩ => nomatch h.symm.trans hu
  | .ok u => decidable_of_iff (relativeSchemes.contains (String.ofList u.scheme) = true ∧
      ({ u with fragment := [] } : Uri).text = base)
    ⟨fun hu => ⟨u, h, hu⟩, fun ⟨_, hv, hu⟩ => Except.ok.inj (h.symm.trans hv) ▸ hu⟩

/-- Characters without the line ends and tabs, which reading leaves out. -/
def withoutBreaks (cs : List Char) : List Char :=
  cs.filter fun c => c != '\t' && c != '\r' && c != '\n'

theorem mem_withoutBreaks {c : Char} :
    c ∈ withoutBreaks cs ↔ c ∈ cs ∧ c ≠ '\t' ∧ c ≠ '\r' ∧ c ≠ '\n' := by
  simp [withoutBreaks, and_assoc]

/-! ## Schemes -/

/-- A scheme of relative references, if there is one, is written in small letters and has an
authority. -/
theorem relative_cases {scheme : List Char}
    (h : relativeSchemes.contains (String.ofList scheme) = true) :
    scheme = [] ∨ ∃ c cs, scheme = c :: cs ∧ CharClass.isAsciiLetter c = true ∧
      (c :: cs).all isSchemeChar = true ∧ (c :: cs).map lowerAscii = c :: cs ∧
        authoritySchemes.contains (String.ofList (c :: cs)) = true := by
  have hall : ∀ s ∈ relativeSchemes,
      s.toList = [] ∨ (s.toList.take 1).all CharClass.isAsciiLetter = true ∧
      s.toList.all isSchemeChar = true ∧ s.toList.map lowerAscii = s.toList ∧
        authoritySchemes.contains s = true := by
    decide
  have hscheme := hall _ (List.contains_iff_mem.1 h)
  rw [String.toList_ofList] at hscheme
  rcases hscheme with hempty | ⟨hletter, hchars, hlower, hauthority⟩
  · exact .inl hempty
  · rcases scheme with _ | ⟨c, cs⟩
    · exact .inl rfl
    · exact .inr ⟨c, cs, rfl, by simpa using hletter, hchars, hlower, hauthority⟩

/-- A scheme in small letters is read as it is. -/
theorem splitScheme_colon {default : List Char} {c : Char} {tail : List Char}
    (hletter : CharClass.isAsciiLetter c = true) (hchars : (c :: tail).all isSchemeChar = true)
    (hlower : (c :: tail).map lowerAscii = c :: tail) (after : List Char) :
    splitScheme default (c :: tail ++ ':' :: after) = (c :: tail, after) := by
  have hcolon : ∀ d ∈ c :: tail, (d != ':') = true := by
    intro d hd
    rw [bne_iff_ne]
    rintro rfl
    exact absurd (List.all_eq_true.1 hchars ':' hd) (by decide)
  have htake : (c :: tail ++ ':' :: after).takeWhile (· != ':') = c :: tail := by
    rw [List.takeWhile_append_of_pos hcolon,
      List.takeWhile_cons_of_neg (by decide), List.append_nil]
  have hdrop : (c :: tail ++ ':' :: after).dropWhile (· != ':') = ':' :: after := by
    rw [List.dropWhile_append_of_pos hcolon, List.dropWhile_cons_of_neg (by decide)]
  unfold splitScheme
  rw [htake, hdrop]
  simp only [hletter, hchars, Bool.and_self, if_pos, hlower]

/-- The scheme of a text with what follows it. -/
def schemeMark (u : Uri) : List Char := if u.scheme.isEmpty then [] else u.scheme ++ [':']

/-- A text that has an authority, be it an empty one. -/
def Located (u : Uri) : Prop :=
  u.scheme ≠ [] ∨ u.authority ≠ [] ∨ (u.path ++ marked ';' u.params).take 2 = ['/', '/']

/-- A scheme that was written is read back. -/
theorem splitScheme_schemeMark (h : relativeSchemes.contains (String.ofList u.scheme) = true)
    (rest : List Char) :
    splitScheme [] (u.schemeMark ++ '/' :: rest) = (u.scheme, '/' :: rest) := by
  unfold schemeMark
  rcases relative_cases h with hempty | ⟨c, cs, hcons, hletter, hchars, hlower, -⟩
  · simp only [hempty, List.isEmpty_nil, if_pos, List.nil_append]
    unfold splitScheme
    rw [List.takeWhile_cons_of_pos (by decide)]
    simp only
    split
    · rename_i hbefore
      rw [← (List.cons.inj hbefore).1]
      rfl
    · rfl
  · have hmark : (if (c :: cs).isEmpty then [] else c :: cs ++ [':']) ++ '/' :: rest =
        (c :: cs) ++ ':' :: '/' :: rest := by simp
    rw [hcons, hmark]
    exact splitScheme_colon hletter hchars hlower _

/-- A text with an authority has this after the scheme. -/
theorem text_of_located (hrel : relativeSchemes.contains (String.ofList u.scheme) = true)
    (h : u.Located) : u.text = u.schemeMark ++ '/' :: '/' :: (u.authority ++ u.afterAuthority) := by
  have hlocated : (!u.authority.isEmpty ||
      (!u.scheme.isEmpty && authoritySchemes.contains (String.ofList u.scheme)) ||
        (u.path ++ marked ';' u.params).take 2 == ['/', '/']) = true := by
    rcases h with hscheme | hauthority | hpath
    · rcases relative_cases hrel with hempty | ⟨c, cs, hcons, -, -, -, hauthority⟩
      · exact absurd hempty hscheme
      · rw [hcons, hauthority]
        simp
    · simp [hauthority]
    · simp [hpath]
  unfold text afterAuthority schemeMark
  rw [rooted_path_append]
  simp only [hlocated, if_true]
  simp

theorem rooted_rooted (u : Uri) : u.rooted.rooted = u.rooted := by
  unfold rooted
  simp only
  split
  · rfl
  · simp

/-- A slash before the path makes no difference to a text with an authority. -/
theorem text_rooted_of_located (hrel : relativeSchemes.contains (String.ofList u.scheme) = true)
    (h : u.Located) : u.rooted.text = u.text := by
  have hrooted : u.rooted.Located := by
    rcases h with hscheme | hauthority | hpath
    · exact .inl hscheme
    · exact .inr (.inl hauthority)
    · refine .inr (.inr ?_)
      have hhead : (u.path ++ marked ';' u.params).head? = some '/' := by
        have hfirst := congrArg List.head? hpath
        rwa [List.head?_take, if_neg (by decide)] at hfirst
      show (u.rooted.path ++ marked ';' u.params).take 2 = _
      rw [rooted_path_append, hhead]
      simpa using hpath
  rw [text_of_located hrel h, text_of_located (u := u.rooted) hrel hrooted,
    afterAuthority, afterAuthority, rooted_rooted]
  rfl

/-- Without an authority, a URI is its path and what follows. -/
theorem text_of_not_located (h : ¬u.Located) :
    u.text = u.path ++ marked ';' u.params ++ marked '?' u.query ++ marked '#' u.fragment := by
  simp only [Located, not_or, not_not] at h
  obtain ⟨hscheme, hauthority, hpath⟩ := h
  unfold text
  simp only [hscheme, hauthority, List.isEmpty_nil, Bool.not_true, Bool.false_and,
    Bool.or_false, Bool.false_or, beq_iff_eq, if_neg hpath, if_true, List.nil_append]

/-! ## Texts that are read again -/

/-- Characters do not begin with a scheme. -/
def NoScheme (cs : List Char) : Prop :=
  ∀ c, cs.head? = some c → ':' ∈ cs → CharClass.isAsciiLetter c = true →
    (cs.takeWhile (· != ':')).all isSchemeChar = false

/-- A text without a scheme is left whole. -/
theorem splitScheme_of_noScheme (h : NoScheme cs) : splitScheme [] cs = ([], cs) := by
  unfold splitScheme
  simp only
  split
  · rename_i rest c before hdrop hbefore
    have hhead : cs.head? = some c := by
      rw [← List.takeWhile_append_dropWhile (p := (· != ':')) (l := cs), hbefore]
      rfl
    have hcolon : ':' ∈ cs := by
      have hfound := List.head_dropWhile_not (· != ':') (l := cs) (by simp [hdrop])
      simp only [hdrop, List.head_cons, bne_eq_false_iff_eq] at hfound
      refine (List.dropWhile_sublist (· != ':')).subset ?_
      rw [hdrop, hfound]
      exact List.mem_cons_self
    refine if_neg fun hscheme => ?_
    rw [Bool.and_eq_true] at hscheme
    have hnone := h c hhead hcolon hscheme.1
    rw [hscheme.2] at hnone
    cases hnone
  · rfl

theorem takeWhile_append_of_mem (h : ':' ∈ cs) (tail : List Char) :
    (cs ++ tail).takeWhile (· != ':') = cs.takeWhile (· != ':') := by
  obtain ⟨before, after, rfl, hbefore⟩ := List.eq_append_cons_of_mem h
  have hall : ∀ d ∈ before, (d != ':') = true := by
    intro d hd
    rw [bne_iff_ne]
    rintro rfl
    exact hbefore hd
  rw [List.append_assoc, List.takeWhile_append_of_pos hall,
    List.takeWhile_append_of_pos hall, List.cons_append,
    List.takeWhile_cons_of_neg (by simp), List.takeWhile_cons_of_neg (by simp)]

/-- What begins with no scheme does not do so with marks after it. -/
theorem NoScheme.append {tail : List Char} (h : NoScheme cs)
    (htail : ∀ c, tail.head? = some c → isSchemeChar c = false ∧ c ≠ ':') :
    NoScheme (cs ++ tail) := by
  intro c hc hcolon hletter
  by_cases hmem : ':' ∈ cs
  · rw [takeWhile_append_of_mem hmem]
    refine h c ?_ hmem hletter
    rwa [List.head?_append_of_ne_nil _ (List.ne_nil_of_mem hmem)] at hc
  · have hall : ∀ d ∈ cs, (d != ':') = true := by
      intro d hd
      rw [bne_iff_ne]
      rintro rfl
      exact hmem hd
    cases tail with
    | nil => exact absurd (List.append_nil cs ▸ hcolon) hmem
    | cons d tail =>
      obtain ⟨hchar, hne⟩ := htail d rfl
      rw [List.takeWhile_append_of_pos hall, List.takeWhile_cons_of_pos (by simpa using hne)]
      simp [hchar]

theorem NoScheme.of_append {tail : List Char} (h : NoScheme (cs ++ tail)) : NoScheme cs := by
  intro c hc hcolon hletter
  rw [← takeWhile_append_of_mem hcolon tail]
  refine h c ?_ (List.mem_append_left _ hcolon) hletter
  rwa [List.head?_append_of_ne_nil _ (List.ne_nil_of_mem hcolon)]

/-- If no scheme is found, there is none. -/
theorem noScheme_of_splitScheme {after : List Char} (h : splitScheme [] cs = ([], after)) :
    after = cs ∧ NoScheme cs := by
  refine ⟨?_, fun c hc hcolon hletter => ?_⟩
  · rcases splitScheme_cases cs with ⟨scheme, rest, hne, hall⟩ | hall
    · exact absurd (Prod.mk.inj ((hall []).symm.trans h)).1 hne
    · exact (Prod.mk.inj ((hall []).symm.trans h)).2.symm
  · obtain ⟨rest, rfl⟩ := List.head?_eq_some_iff.1 hc
    have hne : (c != ':') = true := by
      rw [bne_iff_ne]
      rintro rfl
      exact absurd hletter (by decide)
    have htake : (c :: rest).takeWhile (· != ':') = c :: rest.takeWhile (· != ':') :=
      List.takeWhile_cons_of_pos hne
    rw [htake, ← Bool.not_eq_true]
    intro hchars
    unfold splitScheme at h
    rw [htake] at h
    cases hdrop : (c :: rest).dropWhile (· != ':') with
    | nil => exact absurd (List.dropWhile_eq_nil_iff.1 hdrop ':' hcolon) (by decide)
    | cons d after' =>
      rw [hdrop] at h
      simp only [hletter, hchars, Bool.and_self, if_pos] at h
      cases (Prod.mk.inj h).1

theorem splitAuthority_of_ne (h : cs.take 2 ≠ ['/', '/']) : splitAuthority cs = ([], cs) := by
  unfold splitAuthority
  split
  · exact absurd rfl h
  · rfl

/-- What follows a path begins with a mark. -/
theorem marks_head {c : Char} (h : (marked '?' u.query ++ marked '#' u.fragment).head? = some c) :
    c = '?' ∨ c = '#' := by
  unfold marked at h
  split at h
  · split at h
    · cases h
    · exact .inr (Option.some.inj h).symm
  · exact .inl (Option.some.inj h).symm

/-- Parts of which the text is read as these parts, but for the slash before the path. -/
structure Legible (u : Uri) : Prop where
  relative : relativeSchemes.contains (String.ofList u.scheme) = true
  wellFormed : authorityError? u.authority = none
  clean : u.Clean
  params : paramSchemes.contains (String.ofList u.scheme) = true →
    ';' ∉ (splitLastSegment u.path).2 ∧ '/' ∉ u.params
  noParams : paramSchemes.contains (String.ofList u.scheme) = false → u.params = []
  /-- No character is left out when the text is read. -/
  kept : ∀ c ∈ u.rest, c ≠ '\t' ∧ c ≠ '\r' ∧ c ≠ '\n'
  /-- A path alone is not taken for anything else. -/
  bare : ¬u.Located → NoScheme (u.path ++ marked ';' u.params) ∧
    ∀ c, (u.path ++ marked ';' u.params).head? = some c → 0x20 < c.toNat

namespace Legible

/-- The params of the last segment are found again. -/
theorem splitParams_eq (h : u.Legible) {path : List Char}
    (hpath : (splitLastSegment path).2 = (splitLastSegment u.path).2) :
    splitParams u.scheme (path ++ marked ';' u.params) = (path, u.params) := by
  by_cases hscheme : paramSchemes.contains (String.ofList u.scheme) = true
  · obtain ⟨hname, hparams⟩ := h.params hscheme
    exact splitParams_marked hscheme (hpath ▸ hname) hparams
  · have hnone := h.noParams (by simpa using hscheme)
    rw [splitParams, if_neg hscheme, hnone]
    simp [marked]

/-- The path, the query and the fragment of a text are read as these. -/
theorem split_eq (h : u.Legible) (path : List Char) (hpath : ∀ c ∈ path, c = '/' ∨ c ∈ u.path) :
    splitAtFirst '#' (path ++ marked ';' u.params ++ marked '?' u.query ++ marked '#' u.fragment) =
        (path ++ marked ';' u.params ++ marked '?' u.query, u.fragment) ∧
      splitAtFirst '?' (path ++ marked ';' u.params ++ marked '?' u.query) =
        (path ++ marked ';' u.params, u.query) := by
  have hchars : ∀ c ∈ path ++ marked ';' u.params, c ≠ '?' ∧ c ≠ '#' := by
    intro c hc
    rcases List.mem_append.1 hc with hc | hc
    · rcases hpath c hc with rfl | hc
      · decide
      · exact h.clean.path c hc
    · rcases mem_marked hc with ⟨rfl, -⟩ | hc
      · decide
      · exact h.clean.params c hc
  refine ⟨splitAtFirst_marked fun hc => ?_, splitAtFirst_marked fun hc => (hchars _ hc).1 rfl⟩
  rcases List.mem_append.1 hc with hc | hc
  · exact (hchars _ hc).2 rfl
  · rcases mem_marked hc with ⟨hc, -⟩ | hc
    · cases hc
    · exact h.clean.query _ hc rfl

/-- Nothing of the text of a legible URI is dropped when it is cleaned. -/
theorem text_kept (h : u.Legible) : ∀ c ∈ u.text, c ≠ '\t' ∧ c ≠ '\r' ∧ c ≠ '\n' := by
  intro c hc
  rcases mem_text_rest hc with hc | hc | hc
  · rcases relative_cases h.relative with hempty | ⟨d, cs, hcons, -, hchars, -⟩
    · rw [hempty] at hc
      cases hc
    · rw [hcons] at hc
      have hchar := List.all_eq_true.1 hchars c hc
      refine ⟨?_, ?_, ?_⟩ <;> rintro rfl <;> exact absurd hchar (by decide)
  · exact h.kept c hc
  · rcases hc with rfl | rfl | rfl | rfl | rfl <;> decide

/-- No character of a text is left out. -/
theorem cleaned_text (h : u.Legible) (hhead : ∀ c, u.text.head? = some c → 0x20 < c.toNat) :
    cleaned u.text = u.text := by
  have hdrop : u.text.dropWhile (fun c => c.toNat ≤ 0x20) = u.text := by
    cases htext : u.text with
    | nil => rfl
    | cons c cs =>
      have hc := hhead c (by rw [htext]; rfl)
      rw [List.dropWhile_cons_of_neg (by simpa using hc)]
  rw [cleaned, hdrop, List.filter_eq_self]
  intro c hc
  simpa [and_assoc] using h.text_kept c hc

/-- A legible URI with an authority is read back, its path rooted. -/
theorem parse_located (h : u.Legible) (hlocated : u.Located) : parse u.text = .ok u.rooted := by
  have htext := text_of_located h.relative hlocated
  have hhead : ∀ c, u.text.head? = some c → 0x20 < c.toNat := by
    intro c hc
    rw [htext, schemeMark] at hc
    rcases relative_cases h.relative with hempty | ⟨d, cs, hcons, hletter, -⟩
    · simp only [hempty, List.isEmpty_nil, if_pos, List.nil_append, List.head?_cons,
        Option.some.injEq] at hc
      rw [← hc]
      decide
    · simp only [hcons, List.isEmpty_cons, Bool.false_eq_true, if_false,
        List.cons_append, List.head?_cons, Option.some.injEq] at hc
      subst hc
      have hcase : CharClass.isAsciiLower d = true ∨ CharClass.isAsciiUpper d = true :=
        Bool.or_eq_true_iff.1 hletter
      rw [CharClass.isAsciiLower_iff, CharClass.isAsciiUpper_iff] at hcase
      omega
  obtain ⟨hfragment, hquery⟩ := h.split_eq u.rooted.path fun c => mem_rooted_path
  rw [parse, parseWith_ok, h.cleaned_text hhead, htext]
  refine ⟨_, u.afterAuthority, _, _, splitScheme_schemeMark h.relative _,
    splitAuthority_append h.clean.authority fun c => endsAuthority_head, h.wellFormed,
      hfragment, hquery, ?_⟩
  exact h.splitParams_eq (splitLastSegment_rooted u)

/-- One without is read back as it was. -/
theorem parse_not_located (h : u.Legible) (hlocated : ¬u.Located) : parse u.text = .ok u := by
  obtain ⟨hscheme, hhead⟩ := h.bare hlocated
  have htext := text_of_not_located hlocated
  simp only [Located, not_or, not_not] at hlocated
  obtain ⟨hnone, hauthority, hpath⟩ := hlocated
  have hmarks : ∀ c, (u.path ++ marked ';' u.params) = [] → u.text.head? = some c →
      c = '?' ∨ c = '#' := by
    intro c hempty hc
    rw [htext, hempty, List.nil_append] at hc
    exact marks_head hc
  have hcleaned := h.cleaned_text fun c hc => by
    by_cases hempty : (u.path ++ marked ';' u.params) = []
    · rcases hmarks c hempty hc with rfl | rfl <;> decide
    · rw [htext, List.append_assoc, List.head?_append_of_ne_nil _ hempty] at hc
      exact hhead c hc
  have hnoScheme : splitScheme [] u.text = ([], u.text) := by
    rw [htext, List.append_assoc]
    refine splitScheme_of_noScheme (hscheme.append fun c hc => ?_)
    rcases marks_head hc with rfl | rfl <;> decide
  have hnoAuthority : splitAuthority u.text = ([], u.text) := by
    refine splitAuthority_of_ne fun htake => ?_
    rw [htext, List.append_assoc] at htake
    match hfull : u.path ++ marked ';' u.params with
    | [] =>
      rw [hfull, List.nil_append] at htake
      have hhead := congrArg List.head? htake
      rw [List.head?_take, if_neg (by decide)] at hhead
      exact absurd (marks_head hhead) (by decide)
    | [c] =>
      rw [hfull, List.singleton_append, List.take_succ_cons, List.cons.injEq] at htake
      have hhead := congrArg List.head? htake.2
      rw [List.head?_take, if_neg (by decide)] at hhead
      exact absurd (marks_head hhead) (by decide)
    | c :: d :: rest =>
      rw [hfull] at htake hpath
      exact hpath htake
  obtain ⟨hfragment, hquery⟩ := h.split_eq u.path fun c => .inr
  rw [parse, parseWith_ok, hcleaned]
  refine ⟨u.text, u.text, _,
    _, by rw [hnoScheme, hnone], by rw [hnoAuthority, hauthority], h.wellFormed, ?_, hquery,
    h.splitParams_eq rfl⟩
  rw [htext]
  exact hfragment

/-- The text of parts is read as parts with the same text. -/
theorem parse_text (h : u.Legible) : ∃ v, parse u.text = .ok v ∧ v.fragment = u.fragment ∧
    ({ v with fragment := [] } : Uri).text = ({ u with fragment := [] } : Uri).text := by
  by_cases hlocated : u.Located
  · refine ⟨u.rooted, h.parse_located hlocated, rfl, ?_⟩
    exact text_rooted_of_located (u := { u with fragment := [] }) h.relative hlocated
  · exact ⟨u, h.parse_not_located hlocated, rfl, rfl⟩

end Legible

/-! ## Texts of what was read -/

theorem prefix_splitAtFirst (sep : Char) (cs : List Char) :
    (splitAtFirst sep cs).1 ++ marked sep (splitAtFirst sep cs).2 <+: cs := by
  have hmarked : marked sep ((cs.dropWhile (· != sep)).drop 1) <+: cs.dropWhile (· != sep) := by
    cases hdrop : cs.dropWhile (· != sep) with
    | nil => exact List.prefix_rfl
    | cons c rest =>
      have hsep := List.head_dropWhile_not (· != sep) (l := cs) (by simp [hdrop])
      simp only [hdrop, List.head_cons, bne_eq_false_iff_eq] at hsep
      rw [List.drop_one, List.tail_cons, marked, hsep]
      split
      · exact List.nil_prefix
      · exact List.prefix_rfl
  have hall := (List.prefix_append_right_inj (cs.takeWhile (· != sep))).2 hmarked
  rwa [List.takeWhile_append_dropWhile] at hall

theorem prefix_splitParams (scheme full : List Char) :
    (splitParams scheme full).1 ++ marked ';' (splitParams scheme full).2 <+: full := by
  unfold splitParams
  split
  · obtain ⟨more, hmore⟩ := prefix_splitAtFirst ';' (splitLastSegment full).2
    refine ⟨more, ?_⟩
    simp only [List.append_assoc] at hmore ⊢
    rw [hmore, splitLastSegment_append]
  · simp [marked]

/-- What is left after cleaning does not begin with white space or a control character. -/
theorem head_cleaned {c : Char} (h : (cleaned cs).head? = some c) : 0x20 < c.toNat := by
  unfold cleaned at h
  cases hdrop : cs.dropWhile (fun c => c.toNat ≤ 0x20) with
  | nil =>
    rw [hdrop] at h
    cases h
  | cons d rest =>
    have hd :=
      List.head_dropWhile_not (l := cs) (fun c : Char => decide (c.toNat ≤ 0x20)) (by simp [hdrop])
    simp only [hdrop, List.head_cons, decide_eq_false_iff_not, Nat.not_le] at hd
    have hkept : (d != '\t' && d != '\r' && d != '\n') = true := by
      simp only [Bool.and_eq_true, bne_iff_ne]
      refine ⟨⟨?_, ?_⟩, ?_⟩ <;> rintro rfl <;> exact absurd hd (by decide)
    have hhead : (List.filter (fun c => c != '\t' && c != '\r' && c != '\n') (d :: rest)).head? =
        some d := by
      rw [List.filter_cons_of_pos (by exact hkept), List.head?_cons]
    rw [hdrop, hhead] at h
    rwa [← Option.some.inj h]

/-- What was read without a scheme and an authority begins with a path that has no scheme, and with
no space. -/
theorem bare_of_parse (h : parse cs = .ok u) (hlocated : ¬u.Located) :
    NoScheme (u.path ++ marked ';' u.params) ∧
      ∀ c, (u.path ++ marked ';' u.params).head? = some c → 0x20 < c.toNat := by
  have hclean := clean_of_parseWith h
  obtain ⟨after, rest, before, full, hscheme, hauth, -, hfragment, hquery, hparams⟩ :=
    parseWith_ok.1 h
  simp only [Located, not_or, not_not] at hlocated
  obtain ⟨hnone, hauthority, -⟩ := hlocated
  -- what is written of the path begins what was read
  have hparts := prefix_splitParams u.scheme full
  have hquestion := (List.prefix_append _ _).trans (prefix_splitAtFirst '?' before)
  have hhash := (List.prefix_append _ _).trans (prefix_splitAtFirst '#' rest)
  rw [hparams] at hparts
  rw [hquery] at hquestion
  rw [hfragment] at hhash
  obtain ⟨more, hrest⟩ := (hparts.trans hquestion).trans hhash
  rw [hnone] at hscheme
  rw [hauthority] at hauth
  obtain ⟨rfl, hnoScheme⟩ := noScheme_of_splitScheme hscheme
  unfold splitAuthority at hauth
  split at hauth
  · rename_i after hafter
    have hslash : ∀ c, (u.path ++ marked ';' u.params).head? = some c → c = '/' := by
      intro c hc
      have hends : endsAuthority c = true := by
        have hrestHead : rest.head? = some c := by
          rw [← hrest, List.head?_append, hc, Option.some_or]
        obtain ⟨tail, rfl⟩ := List.head?_eq_some_iff.1 hrestHead
        have hdrop : after.dropWhile (!endsAuthority ·) = c :: tail := (Prod.mk.inj hauth).2
        have hfirst := List.head_dropWhile_not (!endsAuthority ·) (l := after) (by simp [hdrop])
        simpa only [hdrop, List.head_cons, Bool.not_eq_false'] using hfirst
      have hchars : c ≠ '?' ∧ c ≠ '#' := by
        rcases List.mem_append.1 (List.mem_of_mem_head? hc) with hmem | hmem
        · exact hclean.path c hmem
        · rcases mem_marked hmem with ⟨rfl, -⟩ | hmem
          · decide
          · exact hclean.params c hmem
      simpa [endsAuthority, hchars] using hends
    refine ⟨fun c hc _ hletter => ?_, fun c hc => ?_⟩
    · rw [hslash c hc] at hletter
      cases hletter
    · rw [hslash c hc]
      decide
  · obtain rfl := (Prod.mk.inj hauth).2
    rw [← hrest] at hnoScheme
    refine ⟨hnoScheme.of_append, fun c hc => ?_⟩
    have hfirst : (cleaned cs).head? = some c := by
      rw [← hrest, List.head?_append, hc, Option.some_or]
    exact head_cleaned hfirst

/-- Parts that were read are legible, with any fragment. -/
theorem legible_of_parse (h : parse cs = .ok u)
    (hrel : relativeSchemes.contains (String.ofList u.scheme) = true) {fragment : List Char}
    (hkept : ∀ c ∈ fragment, c ≠ '\t' ∧ c ≠ '\r' ∧ c ≠ '\n') :
    ({ u with fragment } : Uri).Legible := by
  have hclean := clean_of_parseWith h
  obtain ⟨after, rest, before, full, -, -, hwellFormed, -, -, hparams⟩ := parseWith_ok.1 h
  refine ⟨hrel, hwellFormed, ⟨hclean.authority, hclean.path, hclean.params, hclean.query⟩,
    fun hin => ?_, fun hout => ?_, fun c hc => ?_, bare_of_parse (u := u) h⟩
  · exact splitParams_last hin hparams
  · rw [splitParams, if_neg (by simpa using hout)] at hparams
    exact (Prod.mk.inj hparams).2.symm
  · rcases List.mem_append.1 hc with hc | hc
    · exact kept_of_parseWith h c (List.mem_append_left _ hc)
    · exact hkept c hc

/-! ## Fragments -/

theorem cleaned_hash (fragment : List Char) :
    cleaned ('#' :: fragment) = '#' :: withoutBreaks fragment := by
  show List.filter _ ('#' :: fragment) = _
  rw [List.filter_cons_of_pos (by decide)]
  rfl

/-- A fragment alone is read as such, without line ends and tabs. -/
theorem parseWith_hash_withoutBreaks (default fragment : List Char) :
    parseWith default ('#' :: fragment) =
      .ok ⟨default, [], [], [], [], withoutBreaks fragment⟩ := by
  have hkept : ∀ c ∈ withoutBreaks fragment, c ≠ '\t' ∧ c ≠ '\r' ∧ c ≠ '\n' :=
    fun c hc => (mem_withoutBreaks.1 hc).2
  have hagain : withoutBreaks (withoutBreaks fragment) = withoutBreaks fragment := by
    simp [withoutBreaks]
  rw [← (parseWith_hash hkept : parseWith default _ = _)]
  unfold parseWith
  rw [cleaned_hash, cleaned_hash, hagain]

theorem authority_of_relative {scheme : List Char}
    (h : relativeSchemes.contains (String.ofList scheme) = true) :
    authoritySchemes.contains (String.ofList scheme) = true := by
  rcases relative_cases h with rfl | ⟨c, cs, rfl, -, -, -, hauthority⟩
  · decide
  · exact hauthority

/-- A fragment is joined with a base as one of its text, or is kept if there is no base or none of
relative references. -/
theorem join_fragment (base fragment : List Char) :
    join base ('#' :: fragment) = (parse base).map fun b =>
    if base.isEmpty || !relativeSchemes.contains (String.ofList b.scheme) then '#' :: fragment
    else ({ b with fragment := [] } : Uri).text ++ marked '#' (withoutBreaks fragment) := by
  by_cases hbase : base.isEmpty = true
  · obtain rfl := List.isEmpty_iff.1 hbase
    rfl
  · unfold join
    rw [if_neg hbase, if_neg (by simp)]
    cases hparse : parse base with
    | error e => rfl
    | ok b =>
      simp only [bind, Except.bind, parseWith_hash_withoutBreaks, Except.map]
      by_cases hrel : relativeSchemes.contains (String.ofList b.scheme) = true
      · have hresolve : resolve b ⟨b.scheme, [], [], [], [], withoutBreaks fragment⟩ =
            { b with fragment := withoutBreaks fragment } := by
          unfold resolve
          simp only [authority_of_relative hrel]
          simp
        rw [if_neg (by simpa using hrel), if_neg (by simpa [hbase] using hrel),
          hresolve, text_fragment]
        rfl
      · have hother : (base.isEmpty || !relativeSchemes.contains (String.ofList b.scheme)) =
            true := by
          rw [Bool.or_eq_true, Bool.not_eq_true', ← Bool.not_eq_true]
          exact .inr hrel
        rw [if_pos (by simpa using hrel), if_pos hother]
        rfl

/-- A fragment that is joined with a base is separated again without line ends and tabs, and what is
left is the base just if this is normal. -/
theorem defragment_join_hash {base fragment uri : List Char}
    (h : join base ('#' :: fragment) = .ok uri) :
    ∃ document, defragment uri = .ok (document, withoutBreaks fragment) ∧
      (document = base ↔ IsNormal base) := by
  rw [join_fragment] at h
  obtain ⟨b, hparse, huri⟩ := Result.map_ok.1 h
  have hnormal : IsNormal base ↔ relativeSchemes.contains (String.ofList b.scheme) = true ∧
      ({ b with fragment := [] } : Uri).text = base := by
    constructor
    · rintro ⟨u, hu, hrel, htext⟩
      obtain rfl := Except.ok.inj (hparse.symm.trans hu)
      exact ⟨hrel, htext⟩
    · exact fun ⟨hrel, htext⟩ => ⟨b, hparse, hrel, htext⟩
  split at huri
  · rename_i hkept
    subst huri
    refine ⟨[], ?_, ?_⟩
    · unfold defragment
      rw [if_pos (by simp), parse, parseWith_hash_withoutBreaks]
      rfl
    · rw [hnormal]
      rcases Bool.or_eq_true_iff.1 hkept with hempty | hother
      · obtain rfl := List.isEmpty_iff.1 hempty
        obtain rfl := Except.ok.inj hparse
        decide
      · rw [Bool.not_eq_true'] at hother
        constructor
        · rintro rfl
          obtain rfl := Except.ok.inj hparse
          cases hother
        · rintro ⟨hrel, -⟩
          rw [hrel] at hother
          cases hother
  · rename_i hjoined
    obtain ⟨-, hrel⟩ := Bool.or_eq_false_iff.1 (Bool.eq_false_iff.2 hjoined)
    rw [Bool.not_eq_false'] at hrel
    refine ⟨({ b with fragment := [] } : Uri).text,
      ?_, by rw [hnormal]; exact (and_iff_right hrel).symm⟩
    subst huri
    unfold defragment
    by_cases hnone : withoutBreaks fragment = []
    · rw [hnone, marked, if_pos List.isEmpty_nil, List.append_nil,
        if_neg (by simpa using hash_notMem_text hparse)]
      rfl
    · have hlegible : ({ b with fragment := withoutBreaks fragment } : Uri).Legible :=
        legible_of_parse hparse hrel fun c hc => (mem_withoutBreaks.1 hc).2
      obtain ⟨v, hv, hfragment, htext⟩ := hlegible.parse_text
      have hhash : marked '#' (withoutBreaks fragment) = '#' :: withoutBreaks fragment :=
        if_neg (by simpa using hnone)
      rw [if_pos (by simp [hhash]), ← text_fragment, hv]
      show Except.ok (_, _) = Except.ok (_, _)
      rw [htext, hfragment]

end Wadl.Uri
