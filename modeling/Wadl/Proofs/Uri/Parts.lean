import Mathlib.Data.List.TakeWhile
import Wadl.Uri.Join

/-!
# The parts of a reference

What `Uri.parseWith` leaves in each part: `parseWith_ok` names the texts it goes through, and
`Clean` says which characters the parts can hold (`clean_of_parseWith`). `mem_text` says where the
characters of a text come from, and `hash_notMem_defragment` that a reference without its fragment
has no mark of one.
-/

namespace Wadl.Uri

/-! ## Splitting -/

section Split

variable {sep c : Char} {cs : List Char}

/-- What stands before the first separator holds none. -/
theorem notMem_splitAtFirst : sep ∉ (splitAtFirst sep cs).1 := by
  intro h
  simpa using List.mem_takeWhile_imp h

theorem mem_splitAtFirst_fst (h : c ∈ (splitAtFirst sep cs).1) : c ∈ cs :=
  (List.takeWhile_sublist _).subset h

theorem mem_splitAtFirst_snd (h : c ∈ (splitAtFirst sep cs).2) : c ∈ cs :=
  (List.dropWhile_sublist _).subset ((List.drop_sublist 1 _).subset h)

/-- A part that does not hold the mark is split off again. -/
theorem splitAtFirst_marked {a b : List Char} (h : sep ∉ a) :
    splitAtFirst sep (a ++ marked sep b) = (a, b) := by
  have ha : ∀ x ∈ a, (x != sep) = true := by
    intro x hx
    rw [bne_iff_ne]
    rintro rfl
    exact h hx
  unfold splitAtFirst marked
  rw [List.takeWhile_append_of_pos ha, List.dropWhile_append_of_pos ha]
  cases b <;> simp

/-- A marked part holds its mark and its own characters. -/
theorem mem_marked (h : c ∈ marked sep cs) : (c = sep ∧ cs ≠ []) ∨ c ∈ cs := by
  unfold marked at h
  split at h
  · simp at h
  · rename_i hcs
    rcases List.mem_cons.1 h with h | h
    · exact Or.inl ⟨h, by simpa using hcs⟩
    · exact Or.inr h

/-- Nothing of a path is lost when its last segment is split off. -/
theorem splitLastSegment_append (cs : List Char) :
    (splitLastSegment cs).1 ++ (splitLastSegment cs).2 = cs := by
  have hlast : (cs.reverse.takeWhile (· != '/')).reverse <:+ cs := by
    rw [← List.reverse_prefix, List.reverse_reverse]
    exact List.takeWhile_prefix _
  exact List.suffix_iff_eq_append.1 hlast

/-- The last segment holds no slash. -/
theorem slash_notMem_last : '/' ∉ (splitLastSegment cs).2 := by
  intro h
  simpa using List.mem_takeWhile_imp (List.mem_reverse.1 h)

/-- A path whose last segment is known is split before it. -/
theorem splitLastSegment_eq {front last : List Char} (hlast : '/' ∉ last)
    (hfront : front = [] ∨ front.getLast? = some '/') :
    splitLastSegment (front ++ last) = (front, last) := by
  have hall : ∀ x ∈ last.reverse, (x != '/') = true := by
    intro x hx
    rw [bne_iff_ne]
    rintro rfl
    exact hlast (List.mem_reverse.1 hx)
  have hstop : front.reverse.takeWhile (· != '/') = [] := by
    rcases hfront with rfl | hfront
    · rfl
    · rw [← List.head?_reverse] at hfront
      obtain ⟨rest, hrest⟩ := List.head?_eq_some_iff.1 hfront
      rw [hrest]
      rfl
  unfold splitLastSegment
  rw [List.reverse_append, List.takeWhile_append_of_pos hall, hstop]
  simp

/-- What stands before it ends with one. -/
theorem front_ends_with_slash :
    (splitLastSegment cs).1 = [] ∨ (splitLastSegment cs).1.getLast? = some '/' := by
  have hfront : (splitLastSegment cs).1 = (cs.reverse.dropWhile (· != '/')).reverse := by
    have happ := splitLastSegment_append cs
    have hsplit : (cs.reverse.dropWhile (· != '/')).reverse ++ (splitLastSegment cs).2 = cs := by
      rw [splitLastSegment, ← List.reverse_append, List.takeWhile_append_dropWhile,
        List.reverse_reverse]
    exact List.append_cancel_right (happ.trans hsplit.symm)
  rw [hfront, List.getLast?_reverse, List.reverse_eq_nil_iff]
  cases hd : cs.reverse.dropWhile (· != '/') with
  | nil => exact Or.inl rfl
  | cons x rest =>
    have hx := List.head_dropWhile_not (· != '/') (l := cs.reverse) (by simp [hd])
    simp only [hd, List.head_cons, bne_eq_false_iff_eq] at hx
    exact Or.inr (by rw [hx]; rfl)

/-- The params of a path are split off again. -/
theorem splitParams_marked {scheme path params : List Char}
    (hscheme : paramSchemes.contains (String.ofList scheme) = true)
    (hpath : ';' ∉ (splitLastSegment path).2) (hparams : '/' ∉ params) :
    splitParams scheme (path ++ marked ';' params) = (path, params) := by
  have hlast : '/' ∉ (splitLastSegment path).2 ++ marked ';' params := by
    intro h
    rcases List.mem_append.1 h with h | h
    · exact slash_notMem_last h
    · rcases mem_marked h with ⟨h, -⟩ | h
      · cases h
      · exact hparams h
  have hsplit : splitLastSegment (path ++ marked ';' params) =
      ((splitLastSegment path).1, (splitLastSegment path).2 ++ marked ';' params) := by
    rw [← splitLastSegment_eq hlast front_ends_with_slash, ← List.append_assoc,
      splitLastSegment_append]
  rw [splitParams, if_pos hscheme, hsplit]
  simp only [splitAtFirst_marked hpath, splitLastSegment_append]

/-- An authority ends before the first character that ends authorities. -/
theorem mem_splitAuthority_fst (h : c ∈ (splitAuthority cs).1) :
    c ∈ cs ∧ endsAuthority c = false := by
  unfold splitAuthority at h
  split at h
  · rename_i rest
    refine ⟨?_, by simpa using List.mem_takeWhile_imp h⟩
    exact List.mem_cons_of_mem _ (List.mem_cons_of_mem _ ((List.takeWhile_sublist _).subset h))
  · cases h

theorem mem_splitAuthority_snd (h : c ∈ (splitAuthority cs).2) : c ∈ cs := by
  unfold splitAuthority at h
  split at h
  · exact List.mem_cons_of_mem _ (List.mem_cons_of_mem _ ((List.dropWhile_sublist _).subset h))
  · exact h

theorem mem_splitScheme_snd {default : List Char} (h : c ∈ (splitScheme default cs).2) :
    c ∈ cs := by
  unfold splitScheme at h
  simp only at h
  split at h
  · rename_i rest _ _ hdrop _
    split at h
    · have hmem : c ∈ cs.dropWhile (· != ':') := by
        rw [hdrop]
        exact List.mem_cons_of_mem _ h
      exact (List.dropWhile_sublist _).subset hmem
    · exact h
  · exact h

/-- Cleaning adds nothing and takes line ends and tabs out. -/
theorem mem_cleaned (h : c ∈ cleaned cs) : c ∈ cs ∧ c ≠ '\t' ∧ c ≠ '\r' ∧ c ≠ '\n' := by
  obtain ⟨hmem, hc⟩ := List.mem_filter.1 h
  refine ⟨(List.dropWhile_sublist _).subset hmem, ?_⟩
  simpa [and_assoc] using hc

end Split

/-! ## Parts -/

/-- The texts that a reference goes through when it is taken apart. -/
theorem parseWith_ok {default cs : List Char} {u : Uri} :
    parseWith default cs = .ok u ↔
      ∃ after rest before full, splitScheme default (cleaned cs) = (u.scheme, after) ∧
        splitAuthority after = (u.authority, rest) ∧ authorityError? u.authority = none ∧
        splitAtFirst '#' rest = (before, u.fragment) ∧ splitAtFirst '?' before = (full, u.query) ∧
        splitParams u.scheme full = (u.path, u.params) := by
  unfold parseWith
  constructor
  · intro h
    simp only at h
    split at h
    · cases h
    · rename_i hauthority
      obtain rfl := Except.ok.inj h
      exact ⟨_, _, _, _, rfl, rfl, hauthority, rfl, rfl, rfl⟩
  · rintro ⟨after, rest, before, full, hscheme, hauth, herr, hfragment, hquery, hparams⟩
    simp only [hscheme, hauth, herr, hfragment, hquery, hparams]

/-- The parts hold the marks that divide them only where these divide nothing. -/
structure Clean (u : Uri) : Prop where
  authority : ∀ c ∈ u.authority, endsAuthority c = false
  path : ∀ c ∈ u.path, c ≠ '?' ∧ c ≠ '#'
  params : ∀ c ∈ u.params, c ≠ '?' ∧ c ≠ '#'
  query : ∀ c ∈ u.query, c ≠ '#'

theorem mem_splitParams {scheme full : List Char} {c : Char}
    (h : c ∈ (splitParams scheme full).1 ∨ c ∈ (splitParams scheme full).2) : c ∈ full := by
  unfold splitParams at h
  split at h
  · rw [← splitLastSegment_append full]
    rcases h with h | h
    · rcases List.mem_append.1 h with h | h
      · exact List.mem_append_left _ h
      · exact List.mem_append_right _ (mem_splitAtFirst_fst h)
    · exact List.mem_append_right _ (mem_splitAtFirst_snd h)
  · rcases h with h | h
    · exact h
    · cases h

/-- No part of a URI that is read holds what would end it. -/
theorem clean_of_parseWith {default cs : List Char} {u : Uri} (h : parseWith default cs = .ok u) :
    u.Clean := by
  obtain ⟨after, rest, before, full, -, hauth, -, hfragment, hquery, hparams⟩ := parseWith_ok.1 h
  have hfull : ∀ c ∈ full, c ≠ '?' ∧ c ≠ '#' := by
    intro c hc
    constructor
    · rintro rfl
      exact notMem_splitAtFirst (hquery ▸ hc : '?' ∈ (splitAtFirst '?' before).1)
    · rintro rfl
      have hbefore : '#' ∈ before :=
        mem_splitAtFirst_fst (hquery ▸ hc : '#' ∈ (splitAtFirst '?' before).1)
      exact notMem_splitAtFirst (hfragment ▸ hbefore : '#' ∈ (splitAtFirst '#' rest).1)
  refine ⟨fun c hc => ?_, fun c hc => ?_, fun c hc => ?_, fun c hc => ?_⟩
  · have hmem : c ∈ (splitAuthority after).1 := by rwa [hauth]
    exact (mem_splitAuthority_fst hmem).2
  · exact hfull c (mem_splitParams (Or.inl (by rwa [hparams])))
  · exact hfull c (mem_splitParams (Or.inr (by rwa [hparams])))
  · rintro rfl
    have hsnd : '#' ∈ (splitAtFirst '?' before).2 := by rwa [hquery]
    have hbefore : '#' ∈ before := mem_splitAtFirst_snd hsnd
    exact notMem_splitAtFirst (hfragment ▸ hbefore : '#' ∈ (splitAtFirst '#' rest).1)

/-- A scheme has no mark in it unless the one that is taken in its absence has. -/
theorem mem_scheme {default cs : List Char} {c : Char} (h : c ∈ (splitScheme default cs).1) :
    c ∈ default ∨ ∃ d, isSchemeChar d = true ∧ c = lowerAscii d := by
  unfold splitScheme at h
  simp only at h
  split at h
  · split at h
    · rename_i hscheme
      obtain ⟨d, hd, rfl⟩ := List.mem_map.1 h
      simp only [Bool.and_eq_true, List.all_eq_true] at hscheme
      exact Or.inr ⟨d, hscheme.2 d hd, rfl⟩
    · exact Or.inl h
  · exact Or.inl h

theorem isSchemeChar_lowerAscii {c : Char} (h : isSchemeChar c = true) :
    isSchemeChar (lowerAscii c) = true := by
  unfold lowerAscii
  split
  · rename_i hupper
    have hrange : 65 ≤ c.toNat ∧ c.toNat ≤ 90 := by
      simpa [CharClass.isAsciiUpper, Char.le_def, UInt32.le_iff_toNat_le] using hupper
    have hall : ∀ n < 91, 65 ≤ n → isSchemeChar (Char.ofNat (n + 32)) = true := by decide
    exact hall c.toNat (by omega) hrange.1
  · exact h

/-- The characters of a scheme, in lower case, are characters of a scheme. -/
theorem isSchemeChar_of_mem_scheme {cs : List Char} {c : Char} (h : c ∈ (splitScheme [] cs).1) :
    isSchemeChar c = true := by
  rcases mem_scheme h with h | ⟨d, hd, rfl⟩
  · cases h
  · exact isSchemeChar_lowerAscii hd

/-! ## Texts -/

/-- The characters of a text are those of its parts and the marks between them. -/
theorem mem_text {u : Uri} {c : Char} (h : c ∈ u.text) :
    c ∈ u.scheme ∨ c ∈ u.authority ∨ c ∈ u.path ∨ c ∈ u.params ∨ c ∈ u.query ∨ c ∈ u.fragment ∨
      c = ':' ∨ c = '/' ∨ c = ';' ∨ c = '?' ∨ (c = '#' ∧ u.fragment ≠ []) := by
  have hpath : c ∈ u.path ++ marked ';' u.params → c ∈ u.path ∨ c ∈ u.params ∨ c = ';' := by
    intro h
    rcases List.mem_append.1 h with h | h
    · exact Or.inl h
    · rcases mem_marked h with ⟨h, -⟩ | h
      · exact Or.inr (Or.inr h)
      · exact Or.inr (Or.inl h)
  unfold text at h
  rw [List.mem_append, List.mem_append, List.mem_append] at h
  rcases h with ((h | h) | h) | h
  · split at h
    · cases h
    · rcases List.mem_append.1 h with h | h
      · exact Or.inl h
      · simp [List.mem_singleton.1 h]
  · have hlocated : c ∈ u.authority ∨ c = '/' ∨ c ∈ u.path ++ marked ';' u.params := by
      split at h
      · rcases List.mem_cons.1 h with h | h
        · exact Or.inr (Or.inl h)
        · rcases List.mem_cons.1 h with h | h
          · exact Or.inr (Or.inl h)
          · rcases List.mem_append.1 h with h | h
            · exact Or.inl h
            · split at h
              · exact Or.inr (Or.inr h)
              · exact Or.inr (List.mem_cons.1 h)
      · exact Or.inr (Or.inr h)
    rcases hlocated with h | h | h
    · simp [h]
    · simp [h]
    · rcases hpath h with h | h | h <;> simp [h]
  · rcases mem_marked h with ⟨h, -⟩ | h <;> simp [h]
  · rcases mem_marked h with ⟨h, hne⟩ | h
    · simp [h, hne]
    · simp [h]

/-! ## Fragments -/

/-- The text of parts without a fragment has no mark of one. -/
theorem hash_notMem_text {cs : List Char} {u : Uri} (h : parse cs = .ok u) :
    '#' ∉ ({ u with fragment := [] } : Uri).text := by
  have hclean := clean_of_parseWith h
  obtain ⟨after, rest, before, full, hscheme, -⟩ := parseWith_ok.1 h
  intro hmem
  rcases mem_text hmem with h | h | h | h | h | h | h | h | h | h | h
  · have hmem : '#' ∈ (splitScheme [] (cleaned cs)).1 := by rwa [hscheme]
    cases isSchemeChar_of_mem_scheme hmem
  · cases hclean.authority _ h
  · exact (hclean.path _ h).2 rfl
  · exact (hclean.params _ h).2 rfl
  · exact hclean.query _ h rfl
  · cases h
  · cases h
  · cases h
  · cases h
  · cases h
  · exact h.2 rfl

/-- A reference without its fragment has no mark of one. -/
theorem hash_notMem_defragment {cs document fragment : List Char}
    (h : defragment cs = .ok (document, fragment)) : '#' ∉ document := by
  unfold defragment at h
  split at h
  · cases hu : parse cs with
    | error e =>
      rw [hu] at h
      cases h
    | ok u =>
      rw [hu] at h
      obtain ⟨rfl, -⟩ := Prod.mk.inj (Except.ok.inj h)
      exact hash_notMem_text hu
  · obtain ⟨rfl, -⟩ := Prod.mk.inj (Except.ok.inj h)
    rename_i hcs
    simpa using hcs

end Wadl.Uri
