import Mathlib.Data.Bool.AllAny
import Mathlib.Tactic.Tauto
import Wadl.Proofs.Text.Pieces
import Wadl.Proofs.Uri.Parts

/-!
# Joined references

A reference joined with an http or https base is absolute (`absolute_resolve`). The text of such a
reference is taken apart into the same parts (`parseWith_text`), so joining it with a base of the
same scheme once more leaves it as it is (`join_text`).
-/

namespace Wadl.Uri

/-! ## Paths -/

section Paths

variable {c : Char} {path base : List Char}

/-- The last of joined segments is split off. -/
theorem splitLastSegment_intercalate (xs : List (List Char)) {x : List Char} (hx : '/' ∉ x) :
    (splitLastSegment (['/'].intercalate (xs ++ [x]))).2 = x := by
  have hfront : ∃ front, (front = [] ∨ front.getLast? = some '/') ∧
      ['/'].intercalate (xs ++ [x]) = front ++ x := by
    induction xs with
    | nil => exact ⟨[], Or.inl rfl, by rw [List.nil_append, List.intercalate_singleton]; rfl⟩
    | cons y ys ih =>
      obtain ⟨front, hlast, hjoin⟩ := ih
      have hne : ys ++ [x] ≠ [] := by simp
      obtain ⟨z, zs, hz⟩ := List.exists_cons_of_ne_nil hne
      refine ⟨y ++ ['/'] ++ front, Or.inr ?_, ?_⟩
      · rcases hlast with rfl | hlast
        · simp
        · rw [List.getLast?_append, hlast]
          rfl
      · rw [List.cons_append, hz, List.intercalate_cons_cons, ← hz, hjoin]
        simp only [List.append_assoc]
  obtain ⟨front, hlast, hjoin⟩ := hfront
  rw [hjoin, splitLastSegment_eq hx hlast]

/-- The last piece of a path is its last segment. -/
theorem getLast_pieces (path : List Char) :
    ∃ xs, Text.pieces (· == '/') path = xs ++ [(splitLastSegment path).2] := by
  obtain ⟨xs, x, hxs⟩ := (List.eq_nil_or_concat (Text.pieces (· == '/') path)).resolve_left
    (Text.pieces_ne_nil _ _)
  rw [List.concat_eq_append] at hxs
  have hx : '/' ∉ x := by
    intro h
    have hmem : x ∈ Text.pieces (· == '/') path := by
      rw [hxs]
      exact List.mem_append_right xs (List.mem_singleton_self x)
    simpa using (Text.mem_of_mem_pieces hmem h).2
  have hlast := splitLastSegment_intercalate xs hx
  rw [← hxs, Text.intercalate_pieces] at hlast
  exact ⟨xs, by rw [hxs, hlast]⟩

/-- Dropping empty segments adds none. -/
theorem mem_dropInnerEmpty {x : List Char} {segments : List (List Char)}
    (h : x ∈ dropInnerEmpty segments) : x ∈ segments := by
  unfold dropInnerEmpty at h
  split at h
  · exact h
  · rename_i first rest
    split at h
    · rw [List.mem_singleton.1 h]
      exact List.mem_cons_self
    · rename_i last hlast
      rw [List.cons_append, List.mem_cons, List.mem_append, List.mem_singleton] at h
      rcases h with rfl | h | rfl
      · exact List.mem_cons_self
      · exact List.mem_cons_of_mem _ (List.dropLast_subset _ (List.mem_filter.1 h).1)
      · exact List.mem_cons_of_mem _ (List.mem_of_getLast? hlast)

/-- The last segment is kept, even if it is empty. -/
theorem dropInnerEmpty_append (xs : List (List Char)) (x : List Char) :
    ∃ ys, dropInnerEmpty (xs ++ [x]) = ys ++ [x] := by
  cases xs with
  | nil => exact ⟨[], rfl⟩
  | cons first rest =>
    refine ⟨first :: rest.filter fun s => !s.isEmpty, ?_⟩
    simp [dropInnerEmpty]

/-- Removing dots adds no segment. -/
theorem mem_removeDots {x : List Char} :
    ∀ {segments done : List (List Char)}, x ∈ removeDots done segments → x ∈ done ∨ x ∈ segments
  | [], done, h => by
    rw [removeDots, List.mem_reverse] at h
    exact Or.inl h
  | s :: rest, done, h => by
    unfold removeDots at h
    split at h
    · exact (mem_removeDots h).imp List.mem_of_mem_drop (List.mem_cons_of_mem s)
    · split at h
      · exact (mem_removeDots h).imp_right (List.mem_cons_of_mem s)
      · rcases mem_removeDots h with h | h
        · rcases List.mem_cons.1 h with rfl | h
          · exact Or.inr List.mem_cons_self
          · exact Or.inl h
        · exact Or.inr (List.mem_cons_of_mem s h)

/-- A last segment that is not made of dots stays the last. -/
theorem removeDots_append {x : List Char} (hdot : x ≠ ['.']) (hdots : x ≠ ['.', '.']) :
    ∀ (xs done : List (List Char)), ∃ ys, removeDots done (xs ++ [x]) = ys ++ [x]
  | [], done => ⟨done.reverse, by simp [removeDots, hdot, hdots]⟩
  | s :: xs, done => by
    rw [List.cons_append]
    unfold removeDots
    split
    · exact removeDots_append hdot hdots xs (done.drop 1)
    · split
      · exact removeDots_append hdot hdots xs done
      · exact removeDots_append hdot hdots xs (s :: done)

/-- The segments of a merged path before dots are resolved. -/
def mergedSegments (base path : List Char) : List (List Char) :=
  if path.head? == some '/' then Text.pieces (· == '/') path
  else dropInnerEmpty (baseSegments base ++ Text.pieces (· == '/') path)

/-- Merged paths end with the last segment of the second. -/
theorem mergedSegments_append (base path : List Char) :
    ∃ xs, mergedSegments base path = xs ++ [(splitLastSegment path).2] := by
  obtain ⟨xs, hxs⟩ := getLast_pieces path
  unfold mergedSegments
  split
  · exact ⟨xs, hxs⟩
  · rw [hxs, ← List.append_assoc]
    exact dropInnerEmpty_append _ _

/-- The segments of a merged path are pieces of both paths. -/
theorem mem_pieces_of_mem_mergedSegments {x : List Char} (h : x ∈ mergedSegments base path) :
    x ∈ Text.pieces (· == '/') base ∨ x ∈ Text.pieces (· == '/') path := by
  unfold mergedSegments at h
  split at h
  · exact Or.inr h
  · rcases List.mem_append.1 (mem_dropInnerEmpty h) with h | h
    · refine Or.inl ?_
      unfold baseSegments at h
      simp only at h
      split at h
      · exact h
      · exact List.dropLast_subset _ h
    · exact Or.inr h

/-- Merged segments have characters of the two paths only. -/
theorem mem_mergedSegments {x : List Char} (h : x ∈ mergedSegments base path) (hc : c ∈ x) :
    c ∈ base ∨ c ∈ path :=
  (mem_pieces_of_mem_mergedSegments h).imp (fun h => (Text.mem_of_mem_pieces h hc).1)
    fun h => (Text.mem_of_mem_pieces h hc).1

/-- The segments of a path after dots are resolved, with an empty one in the place of dots at the
end. -/
def resolvedSegments (segments : List (List Char)) : List (List Char) :=
  if segments.getLast?.getD [] = ['.'] ∨ segments.getLast?.getD [] = ['.', '.'] then
    removeDots [] segments ++ [[]]
  else removeDots [] segments

/-- What is left of segments, the last of which stays the last or is replaced by an empty one. -/
theorem resolvedSegments_append (xs : List (List Char)) (x : List Char) :
    ∃ ys y, resolvedSegments (xs ++ [x]) = ys ++ [y] ∧ (y = x ∨ y = []) ∧
      ∀ z ∈ ys ++ [y], z = [] ∨ z ∈ xs ++ [x] := by
  have hmem : ∀ z ∈ removeDots [] (xs ++ [x]), z ∈ xs ++ [x] := by
    intro z hz
    exact (mem_removeDots hz).resolve_left (by simp)
  unfold resolvedSegments
  rw [List.getLast?_append, List.getLast?_singleton, Option.some_or, Option.getD_some]
  split
  · refine ⟨_, [], rfl, Or.inr rfl, fun z hz => ?_⟩
    rcases List.mem_append.1 hz with hz | hz
    · exact Or.inr (hmem z hz)
    · exact Or.inl (List.mem_singleton.1 hz)
  · rename_i hdots
    rw [not_or] at hdots
    obtain ⟨ys, hys⟩ := removeDots_append hdots.1 hdots.2 xs []
    refine ⟨ys, x, hys, Or.inl rfl, fun z hz => Or.inr (hmem z ?_)⟩
    rwa [hys]

/-- Merged paths are the segments without dots, or a slash if nothing is left. -/
theorem mergePaths_eq (base path : List Char) :
    mergePaths base path =
      if (['/'].intercalate (resolvedSegments (mergedSegments base path))).isEmpty then ['/']
      else ['/'].intercalate (resolvedSegments (mergedSegments base path)) := rfl

/-- The last segment of a merged path is the one of the path put below the base, unless that is made
of dots. -/
theorem last_mergePaths (base path : List Char) :
    (splitLastSegment (mergePaths base path)).2 = (splitLastSegment path).2 ∨
      (splitLastSegment (mergePaths base path)).2 = [] := by
  obtain ⟨xs, hxs⟩ := mergedSegments_append base path
  obtain ⟨ys, y, hys, hy, -⟩ := resolvedSegments_append xs (splitLastSegment path).2
  rw [mergePaths_eq, hxs, hys]
  split
  · exact Or.inr rfl
  · have hslash : '/' ∉ y := by
      rcases hy with rfl | rfl
      · exact slash_notMem_last
      · simp
    rw [splitLastSegment_intercalate ys hslash]
    exact hy

/-- The characters of a merged path come from both paths. -/
theorem mem_mergePaths (h : c ∈ mergePaths base path) : c = '/' ∨ c ∈ base ∨ c ∈ path := by
  obtain ⟨xs, hxs⟩ := mergedSegments_append base path
  obtain ⟨ys, y, hys, -, hmem⟩ := resolvedSegments_append xs (splitLastSegment path).2
  rw [mergePaths_eq, hxs, hys] at h
  split at h
  · exact Or.inl (List.mem_singleton.1 h)
  · rcases mem_intercalate h with h | ⟨z, hz, hc⟩
    · exact Or.inl (List.mem_singleton.1 h)
    · rcases hmem z hz with rfl | hz
      · cases hc
      · rw [← hxs] at hz
        exact Or.inr (mem_mergedSegments hz hc)

end Paths

/-! ## Absolute references -/

/-- The schemes of the base. -/
def IsHttp (scheme : List Char) : Prop := scheme = "http".toList ∨ scheme = "https".toList

/-- The characters of the parts after the scheme. -/
def rest (u : Uri) : List Char := u.authority ++ u.path ++ u.params ++ u.query ++ u.fragment

/-- Marks between the parts of a text. -/
def isMark (c : Char) : Prop := c = ':' ∨ c = '/' ∨ c = ';' ∨ c = '?' ∨ c = '#'

/-- The parts of an http or https reference with an authority, none of which holds a mark that would
divide it otherwise. -/
structure Absolute (u : Uri) : Prop where
  http : IsHttp u.scheme
  located : u.authority ≠ []
  wellFormed : authorityError? u.authority = none
  clean : u.Clean
  name : ';' ∉ (splitLastSegment u.path).2
  params : '/' ∉ u.params
  /-- No character is left out when the text is read. -/
  kept : ∀ c ∈ u.rest, c ≠ '\t' ∧ c ≠ '\r' ∧ c ≠ '\n'

/-- The parts with the slash before the path that their text has. -/
def rooted (u : Uri) : Uri :=
  let path := u.path ++ marked ';' u.params
  { u with path := if path.isEmpty || path.head? == some '/' then u.path else '/' :: u.path }

section Absolute

variable {u b r : Uri}

theorem IsHttp.authority {scheme : List Char} (h : IsHttp scheme) :
    authoritySchemes.contains (String.ofList scheme) = true := by
  rcases h with rfl | rfl <;> decide

theorem IsHttp.params {scheme : List Char} (h : IsHttp scheme) :
    paramSchemes.contains (String.ofList scheme) = true := by
  rcases h with rfl | rfl <;> decide

theorem IsHttp.char {scheme : List Char} (h : IsHttp scheme) {c : Char} (hc : c ∈ scheme) :
    c ∈ "htps".toList := by
  rcases h with rfl | rfl
  · exact List.all_iff_forall_prop.1 (by decide) c hc
  · exact List.all_iff_forall_prop.1 (by decide) c hc

theorem IsHttp.relative {scheme : List Char} (h : IsHttp scheme) :
    relativeSchemes.contains (String.ofList scheme) = true := by
  rcases h with rfl | rfl <;> decide

/-- The characters of a text are those of the scheme, of the other parts, and marks. -/
theorem mem_text_rest {c : Char} (h : c ∈ u.text) : c ∈ u.scheme ∨ c ∈ u.rest ∨ isMark c := by
  unfold rest isMark
  simp only [List.mem_append]
  rcases mem_text h with h | h | h | h | h | h | h | h | h | h | h
  all_goals simp [h]

/-- The text of an absolute URI has no character that parsing drops. -/
theorem Absolute.text_kept (h : u.Absolute) :
    ∀ c ∈ u.text, c ≠ '\t' ∧ c ≠ '\r' ∧ c ≠ '\n' := by
  intro c hc
  rcases mem_text_rest hc with hc | hc | hc
  · have hall : ∀ d ∈ "htps".toList, d ≠ '\t' ∧ d ≠ '\r' ∧ d ≠ '\n' :=
      List.all_iff_forall_prop.1 (by decide)
    exact hall c (h.http.char hc)
  · exact h.kept c hc
  · rcases hc with rfl | rfl | rfl | rfl | rfl <;> decide

/-- What follows the authority of a text. -/
def afterAuthority (u : Uri) : List Char :=
  (u.rooted.path ++ marked ';' u.params ++ marked '?' u.query) ++ marked '#' u.fragment

theorem rooted_path_append (u : Uri) :
    u.rooted.path ++ marked ';' u.params =
      if (u.path ++ marked ';' u.params).isEmpty ||
        (u.path ++ marked ';' u.params).head? == some '/' then u.path ++ marked ';' u.params
      else '/' :: (u.path ++ marked ';' u.params) := by
  unfold rooted
  simp only
  split <;> rfl

/-- The text of a URI with a scheme and an authority begins with both. -/
theorem text_eq (hscheme : IsHttp u.scheme) (hauthority : u.authority ≠ []) :
    u.text = u.scheme ++ ':' :: '/' :: '/' :: (u.authority ++ u.afterAuthority) := by
  have hne : u.scheme.isEmpty = false := by
    rcases hscheme with h | h <;> rw [h] <;> rfl
  have hauth : u.authority.isEmpty = false := by simpa using hauthority
  unfold text afterAuthority
  rw [rooted_path_append]
  simp [hne, hauth]

/-- The text after the authority begins with a mark that ends one. -/
theorem endsAuthority_head {c : Char} (h : u.afterAuthority.head? = some c) :
    endsAuthority c = true := by
  have hmarks : ∀ {sep : Char} {cs rest : List Char}, (marked sep cs ++ rest).head? = some c →
      c = sep ∨ rest.head? = some c := by
    intro sep cs rest h
    unfold marked at h
    split at h
    · exact Or.inr h
    · exact Or.inl (by simpa [eq_comm] using h)
  unfold afterAuthority at h
  rw [rooted_path_append, List.append_assoc] at h
  split at h
  · rename_i hpath
    rcases Bool.or_eq_true_iff.1 hpath with hempty | hslash
    · rw [List.isEmpty_iff.1 hempty, List.nil_append] at h
      rcases hmarks h with rfl | h
      · rfl
      · rw [← List.append_nil (marked '#' u.fragment)] at h
        rcases hmarks h with rfl | h
        · rfl
        · cases h
    · rw [List.head?_append, beq_iff_eq.1 hslash] at h
      obtain rfl := Option.some.inj h
      rfl
  · obtain rfl := Option.some.inj h
    rfl

/-- An authority ends where a character ends it. -/
theorem splitAuthority_append {authority rest : List Char}
    (hauthority : ∀ c ∈ authority, endsAuthority c = false)
    (hrest : ∀ c, rest.head? = some c → endsAuthority c = true) :
    splitAuthority ('/' :: '/' :: (authority ++ rest)) = (authority, rest) := by
  have hall : ∀ c ∈ authority, (!endsAuthority c) = true := by
    intro c hc
    simp [hauthority c hc]
  have hstop : rest.takeWhile (!endsAuthority ·) = [] ∧
      rest.dropWhile (!endsAuthority ·) = rest := by
    cases rest with
    | nil => exact ⟨rfl, rfl⟩
    | cons c cs => simp [hrest c rfl]
  rw [splitAuthority, List.takeWhile_append_of_pos hall, List.dropWhile_append_of_pos hall, hstop.1,
    hstop.2, List.append_nil]

/-- A text that begins with a scheme, and has no character that is dropped, stays as it is. -/
theorem cleaned_eq {scheme rest : List Char} (hscheme : IsHttp scheme)
    (h : ∀ c ∈ scheme ++ rest, c ≠ '\t' ∧ c ≠ '\r' ∧ c ≠ '\n') :
    cleaned (scheme ++ rest) = scheme ++ rest := by
  have hdrop : (scheme ++ rest).dropWhile (fun c => c.toNat ≤ 0x20) = scheme ++ rest := by
    rcases hscheme with rfl | rfl <;> rfl
  rw [cleaned, hdrop, List.filter_eq_self]
  intro c hc
  simpa [and_assoc] using h c hc

/-- A scheme of the web is split off its text. -/
theorem splitScheme_eq {scheme : List Char} (hscheme : IsHttp scheme) (default rest : List Char) :
    splitScheme default (scheme ++ ':' :: rest) = (scheme, rest) := by
  rcases hscheme with rfl | rfl <;> rfl

/-- A slash before a path does not change its last segment. -/
theorem splitLastSegment_slash (path : List Char) :
    (splitLastSegment ('/' :: path)).2 = (splitLastSegment path).2 := by
  have hfront : ('/' :: (splitLastSegment path).1).getLast? = some '/' := by
    have hends : (splitLastSegment path).1 = [] ∨ (splitLastSegment path).1.getLast? = some '/' :=
      front_ends_with_slash
    rcases hends with h | h
    · rw [h]
      rfl
    · rw [List.getLast?_cons, h]
      rfl
  have hlast : '/' ∉ (splitLastSegment path).2 := slash_notMem_last
  have h := splitLastSegment_eq hlast (Or.inr hfront)
  rw [List.cons_append, splitLastSegment_append] at h
  rw [h]

theorem splitLastSegment_rooted (u : Uri) :
    (splitLastSegment u.rooted.path).2 = (splitLastSegment u.path).2 := by
  unfold rooted
  simp only
  split
  · rfl
  · exact splitLastSegment_slash u.path

theorem mem_rooted_path {c : Char} (h : c ∈ u.rooted.path) : c = '/' ∨ c ∈ u.path := by
  unfold rooted at h
  simp only at h
  split at h
  · exact Or.inr h
  · exact List.mem_cons.1 h

/-- The text of an absolute reference is taken apart into its parts, whatever the scheme of the
base. -/
theorem parseWith_text (h : u.Absolute) (default : List Char) :
    parseWith default u.text = .ok u.rooted := by
  have hpath : ∀ c ∈ u.rooted.path ++ marked ';' u.params, c ≠ '?' ∧ c ≠ '#' := by
    intro c hc
    rcases List.mem_append.1 hc with hc | hc
    · rcases mem_rooted_path hc with rfl | hc
      · decide
      · exact h.clean.path c hc
    · rcases mem_marked hc with ⟨rfl, -⟩ | hc
      · decide
      · exact h.clean.params c hc
  have hquery : '?' ∉ u.rooted.path ++ marked ';' u.params := fun hc => (hpath _ hc).1 rfl
  have hfragment : '#' ∉ u.rooted.path ++ marked ';' u.params ++ marked '?' u.query := by
    intro hc
    rcases List.mem_append.1 hc with hc | hc
    · exact (hpath _ hc).2 rfl
    · rcases mem_marked hc with ⟨hc, -⟩ | hc
      · cases hc
      · exact h.clean.query _ hc rfl
  have hname : ';' ∉ (splitLastSegment u.rooted.path).2 := by
    rw [splitLastSegment_rooted]
    exact h.name
  have htext := text_eq h.http h.located
  have hcleaned : cleaned u.text = u.text := by
    have hkept := h.text_kept
    rw [htext] at hkept ⊢
    exact cleaned_eq h.http hkept
  rw [parseWith_ok, hcleaned, htext]
  exact ⟨_, u.afterAuthority, _, _, splitScheme_eq h.http default _,
    splitAuthority_append h.clean.authority fun c => endsAuthority_head, h.wellFormed,
    splitAtFirst_marked hfragment, splitAtFirst_marked hquery,
    splitParams_marked h.http.params hname h.params⟩

/-- An absolute URI with its path rooted has the same text. -/
theorem text_rooted (h : u.Absolute) : u.rooted.text = u.text := by
  have hagain : u.rooted.rooted = u.rooted := by
    unfold rooted
    simp only
    split
    · rfl
    · simp
  rw [text_eq h.http h.located, text_eq (u := u.rooted) h.http h.located,
    afterAuthority, afterAuthority, hagain]
  rfl

/-- Resolving a reference with an authority of its own leaves it as it is. -/
theorem resolve_absolute (h : u.Absolute) (b : Uri) : resolve b u.rooted = u.rooted := by
  have hlocated : u.authority.isEmpty = false := by simpa using h.located
  have howns : (authoritySchemes.contains (String.ofList u.rooted.scheme) &&
      !u.rooted.authority.isEmpty) = true := by
    rw [Bool.and_eq_true, Bool.not_eq_true']
    exact ⟨h.http.authority, hlocated⟩
  rw [resolve, if_pos howns]

/-- An absolute reference is the same as seen from a base of its scheme. -/
theorem join_text (h : u.Absolute) {base : List Char} (hne : base ≠ []) (hb : parse base = .ok b)
    (hscheme : b.scheme = u.scheme) : join base u.text = .ok u.text := by
  have hbase : base.isEmpty = false := by simpa using hne
  have htext : u.text.isEmpty = false := by
    rw [text_eq h.http h.located]
    rcases h.http with hs | hs <;> rw [hs] <;> rfl
  have hsame : ¬(u.rooted.scheme ≠ b.scheme ∨
      !relativeSchemes.contains (String.ofList u.rooted.scheme)) := by
    rw [not_or, not_not, Bool.not_eq_true', Bool.not_eq_false]
    exact ⟨hscheme.symm, h.http.relative⟩
  unfold join
  rw [if_neg (by simp [hbase]), if_neg (by simp [htext]), hb]
  simp only [bind, Except.bind, parseWith_text h, if_neg hsame, resolve_absolute h, text_rooted h]
  rfl

/-! ## Reading and resolving -/

/-- What a URI has after its scheme comes from the text that it is parsed from. -/
theorem mem_rest_of_parseWith {default cs : List Char} (h : parseWith default cs = .ok u) {c : Char}
    (hc : c ∈ u.rest) : c ∈ cleaned cs := by
  obtain ⟨after, rest, before, full, hscheme, hauth, -, hfragment, hquery, hparams⟩ :=
    parseWith_ok.1 h
  have hafter : ∀ d ∈ after, d ∈ cleaned cs := by
    intro d hd
    have hmem : d ∈ (splitScheme default (cleaned cs)).2 := by rwa [hscheme]
    exact mem_splitScheme_snd hmem
  have hrest : ∀ d ∈ rest, d ∈ after := by
    intro d hd
    refine mem_splitAuthority_snd ?_
    rwa [hauth]
  have hbefore : ∀ d ∈ before, d ∈ rest := by
    intro d hd
    have hmem : d ∈ (splitAtFirst '#' rest).1 := by rwa [hfragment]
    exact mem_splitAtFirst_fst hmem
  have hfull : ∀ d ∈ full, d ∈ rest := by
    intro d hd
    have hmem : d ∈ (splitAtFirst '?' before).1 := by rwa [hquery]
    exact hbefore d (mem_splitAtFirst_fst hmem)
  unfold Uri.rest at hc
  simp only [List.mem_append, or_assoc] at hc
  rcases hc with hc | hc | hc | hc | hc
  · have hmem : c ∈ (splitAuthority after).1 := by rwa [hauth]
    exact hafter c (mem_splitAuthority_fst hmem).1
  · exact hafter c (hrest c (hfull c (mem_splitParams (Or.inl (by rwa [hparams])))))
  · exact hafter c (hrest c (hfull c (mem_splitParams (Or.inr (by rwa [hparams])))))
  · have hmem : c ∈ (splitAtFirst '?' before).2 := by rwa [hquery]
    exact hafter c (hrest c (hbefore c (mem_splitAtFirst_snd hmem)))
  · have hmem : c ∈ (splitAtFirst '#' rest).2 := by rwa [hfragment]
    exact hafter c (hrest c (mem_splitAtFirst_snd hmem))

/-- The params of a path are those of its last segment. -/
theorem splitParams_last {scheme full path params : List Char}
    (hscheme : paramSchemes.contains (String.ofList scheme) = true)
    (h : splitParams scheme full = (path, params)) :
    ';' ∉ (splitLastSegment path).2 ∧ '/' ∉ params := by
  rw [splitParams, if_pos hscheme] at h
  have hpath : (splitLastSegment full).1 ++ (splitAtFirst ';' (splitLastSegment full).2).1 = path :=
    congrArg Prod.fst h
  have hparams : (splitAtFirst ';' (splitLastSegment full).2).2 = params := congrArg Prod.snd h
  have hslash : '/' ∉ (splitAtFirst ';' (splitLastSegment full).2).1 :=
    fun hc => slash_notMem_last (mem_splitAtFirst_fst hc)
  rw [← hpath, ← hparams]
  constructor
  · rw [splitLastSegment_eq hslash front_ends_with_slash]
    exact notMem_splitAtFirst
  · exact fun hc => slash_notMem_last (mem_splitAtFirst_snd hc)

/-- A parsed URI has no character that parsing drops. -/
theorem kept_of_parseWith {default cs : List Char} (h : parseWith default cs = .ok u) :
    ∀ c ∈ u.rest, c ≠ '\t' ∧ c ≠ '\r' ∧ c ≠ '\n' := by
  intro c hc
  exact (mem_cleaned (mem_rest_of_parseWith h hc)).2

/-- A URI of the web with an authority is parsed as an absolute one. -/
theorem absolute_of_parseWith {default cs : List Char} (h : parseWith default cs = .ok u)
    (hhttp : IsHttp u.scheme) (hlocated : u.authority ≠ []) : u.Absolute := by
  obtain ⟨after, rest, before, full, -, -, hwellFormed, -, -, hparams⟩ := parseWith_ok.1 h
  obtain ⟨hname, hslash⟩ := splitParams_last hhttp.params hparams
  exact ⟨hhttp, hlocated, hwellFormed, clean_of_parseWith h, hname, hslash, kept_of_parseWith h⟩

/-- What resolving a reference of the scheme of the base gives: the reference itself, the base with
a query and a fragment, or the base's authority with a path below the base's. -/
theorem resolve_cases (howns : authoritySchemes.contains (String.ofList r.scheme) = true) :
    (r.authority ≠ [] ∧ resolve b r = r) ∨
      (r.authority = [] ∧ (r.path = [] ∧ r.params = []) ∧ resolve b r =
        { b with
          scheme := r.scheme
          query := if r.query.isEmpty then b.query else r.query
          fragment := r.fragment }) ∨
      (r.authority = [] ∧ ¬(r.path = [] ∧ r.params = []) ∧
        resolve b r = { r with authority := b.authority, path := mergePaths b.path r.path }) := by
  unfold resolve
  simp only [howns, Bool.true_and]
  split
  · rename_i hlocated
    exact Or.inl ⟨by simpa using hlocated, rfl⟩
  · rename_i hlocated
    have hnone : r.authority = [] := by simpa using hlocated
    split
    · rename_i hempty
      exact Or.inr (Or.inl ⟨hnone, by simpa using hempty, rfl⟩)
    · rename_i hempty
      exact Or.inr (Or.inr ⟨hnone, by simpa using hempty, rfl⟩)

/-- A resolved URI has characters of the base and of the reference only. -/
theorem mem_rest_resolve (howns : authoritySchemes.contains (String.ofList r.scheme) = true)
    {c : Char} (h : c ∈ (resolve b r).rest) : c = '/' ∨ c ∈ b.rest ∨ c ∈ r.rest := by
  rcases resolve_cases (b := b) howns with ⟨-, hr⟩ | ⟨-, -, hr⟩ | ⟨-, -, hr⟩
  · rw [hr] at h
    exact Or.inr (Or.inr h)
  · rw [hr] at h
    unfold rest at h ⊢
    simp only [List.mem_append] at h ⊢
    split at h <;> grind
  · rw [hr] at h
    unfold rest at h ⊢
    simp only [List.mem_append] at h ⊢
    rcases h with (((h | h) | h) | h) | h
    · grind
    · rcases mem_mergePaths h with h | h | h <;> grind
    · grind
    · grind
    · grind

/-- A reference of the scheme of the base is absolute once it is resolved. -/
theorem absolute_resolve (hb : b.Absolute) {ref : List Char} (h : parseWith b.scheme ref = .ok r)
    (hscheme : r.scheme = b.scheme) : (resolve b r).Absolute := by
  have hhttp : IsHttp r.scheme := hscheme ▸ hb.http
  have hkept : ∀ c ∈ (resolve b r).rest, c ≠ '\t' ∧ c ≠ '\r' ∧ c ≠ '\n' := by
    intro c hc
    rcases mem_rest_resolve hhttp.authority hc with rfl | hc | hc
    · decide
    · exact hb.kept c hc
    · exact kept_of_parseWith h c hc
  have hclean := clean_of_parseWith h
  obtain ⟨after, rest, before, full, -, -, -, -, -, hparams⟩ := parseWith_ok.1 h
  obtain ⟨hname, hslash⟩ := splitParams_last hhttp.params hparams
  rcases resolve_cases (b := b) hhttp.authority with ⟨hlocated, hr⟩ | ⟨-, -, hr⟩ | ⟨-, -, hr⟩
  · rw [hr]
    exact absolute_of_parseWith h hhttp hlocated
  · rw [hr] at hkept ⊢
    refine ⟨hhttp, hb.located, hb.wellFormed,
      ⟨hb.clean.authority, hb.clean.path, hb.clean.params, ?_⟩, hb.name, hb.params, hkept⟩
    simp only
    split
    · exact hb.clean.query
    · exact hclean.query
  · rw [hr] at hkept ⊢
    refine ⟨hhttp, hb.located, hb.wellFormed, ⟨hb.clean.authority, fun c hc => ?_, hclean.params,
      hclean.query⟩, ?_, hslash, hkept⟩
    · rcases mem_mergePaths hc with rfl | hc | hc
      · decide
      · exact hb.clean.path c hc
      · exact hclean.path c hc
    · rcases last_mergePaths b.path r.path with hlast | hlast
      · rw [hlast]
        exact hname
      · rw [hlast]
        exact List.not_mem_nil

end Absolute

/-! ## Joining once more -/

section Join

variable {u b r : Uri} {base ref uri : List Char}

theorem text_ne_nil (h : u.Absolute) : u.text ≠ [] := by
  rw [text_eq h.http h.located]
  simp

/-- A fragment stands at the end of a text. -/
theorem text_fragment (u : Uri) (fragment : List Char) :
    ({ u with fragment } : Uri).text =
      ({ u with fragment := [] } : Uri).text ++ marked '#' fragment := by
  unfold text
  simp [marked]

/-- How a reference is joined: nothing is the base itself, a reference of another scheme is kept,
and one of the scheme of the base is resolved. -/
theorem join_cases (hb : parse base = .ok b) (hne : base ≠ []) (hhttp : IsHttp b.scheme)
    (h : join base ref = .ok uri) :
    uri = base ∨ ∃ r, parseWith b.scheme ref = .ok r ∧
      ((r.scheme ≠ b.scheme ∧ uri = ref ∧ ref ≠ []) ∨
        (r.scheme = b.scheme ∧ uri = (resolve b r).text)) := by
  have hbase : base.isEmpty = false := by simpa using hne
  unfold join at h
  rw [if_neg (by simp [hbase])] at h
  split at h
  · exact Or.inl (Except.ok.inj h).symm
  · rename_i href
    have href : ref ≠ [] := by simpa using href
    rw [hb] at h
    simp only [bind, Except.bind] at h
    cases hr : parseWith b.scheme ref with
    | error e =>
      rw [hr] at h
      cases h
    | ok r =>
      rw [hr] at h
      simp only at h
      refine Or.inr ⟨r, rfl, ?_⟩
      split at h
      · rename_i hdiffers
        refine Or.inl ⟨?_, (Except.ok.inj h).symm, href⟩
        rcases hdiffers with hdiffers | hother
        · exact hdiffers
        · intro hscheme
          rw [hscheme, hhttp.relative] at hother
          cases hother
      · rename_i hsame
        rw [not_or, not_not] at hsame
        exact Or.inr ⟨hsame.1, (Except.ok.inj h).symm⟩

/-- A fragment alone is read as such. -/
theorem parseWith_hash {default fragment : List Char}
    (hkept : ∀ c ∈ fragment, c ≠ '\t' ∧ c ≠ '\r' ∧ c ≠ '\n') :
    parseWith default ('#' :: fragment) = .ok ⟨default, [], [], [], [], fragment⟩ := by
  have hcleaned : cleaned ('#' :: fragment) = '#' :: fragment := by
    have hfilter : fragment.filter (fun c => c != '\t' && c != '\r' && c != '\n') = fragment := by
      rw [List.filter_eq_self]
      intro c hc
      simpa [and_assoc] using hkept c hc
    show List.filter _ ('#' :: fragment) = _
    rw [List.filter_cons_of_pos (by decide), hfilter]
  have hscheme : splitScheme default ('#' :: fragment) = (default, '#' :: fragment) := by
    unfold splitScheme
    rw [List.takeWhile_cons_of_pos (by decide)]
    simp only
    split
    · rename_i hbefore
      rw [← (List.cons.inj hbefore).1]
      rfl
    · rfl
  rw [parseWith_ok, hcleaned]
  refine ⟨_, '#' :: fragment, [], [], hscheme, rfl, rfl, ?_, rfl, ?_⟩
  · simp [splitAtFirst]
  · unfold splitParams
    split <;> rfl

/-- A reference that is a fragment only is joined to the base as it is. -/
theorem join_hash (hb : parse base = .ok b) (habs : b.Absolute) (htext : b.text = base)
    (hfragment : b.fragment = []) {fragment : List Char}
    (hkept : ∀ c ∈ fragment, c ≠ '\t' ∧ c ≠ '\r' ∧ c ≠ '\n') :
    join base ('#' :: fragment) = .ok (base ++ marked '#' fragment) := by
  have hbase : base.isEmpty = false := by
    rw [← htext]
    simpa using text_ne_nil habs
  have hresolve : resolve b ⟨b.scheme, [], [], [], [], fragment⟩ = { b with fragment } := by
    unfold resolve
    simp only [habs.http.authority]
    simp
  have hnone : ({ b with fragment := [] } : Uri) = b := by rw [← hfragment]
  have hsame : ¬(b.scheme ≠ b.scheme ∨ !relativeSchemes.contains (String.ofList b.scheme)) := by
    rw [habs.http.relative]
    simp
  unfold join
  rw [if_neg (by simp [hbase]), if_neg (by simp), hb]
  simp only [bind, Except.bind, parseWith_hash hkept, if_neg hsame, hresolve]
  rw [text_fragment, hnone, htext]
  rfl

/-- An absolute reference is made of its document and its fragment. -/
theorem defragment_text (h : u.Absolute) :
    ∃ document fragment, defragment u.text = .ok (document, fragment) ∧
      u.text = document ++ marked '#' fragment ∧ ∀ c ∈ fragment, c ∈ u.rest := by
  unfold defragment
  split
  · rw [show parse u.text = .ok u.rooted from parseWith_text h []]
    refine ⟨_, _, rfl, ?_, fun c hc => ?_⟩
    · rw [← text_fragment u.rooted u.rooted.fragment]
      exact (text_rooted h).symm
    · exact List.mem_append_right _ hc
  · exact ⟨u.text, [], rfl, by simp [marked], by simp⟩

/-- A scheme that is written does not depend on the one taken in its absence. -/
theorem splitScheme_cases (ref : List Char) :
    (∃ scheme rest, scheme ≠ [] ∧ ∀ default, splitScheme default ref = (scheme, rest)) ∨
      ∀ default, splitScheme default ref = (default, ref) := by
  unfold splitScheme
  simp only
  cases hbefore : ref.takeWhile (· != ':') with
  | nil => exact Or.inr fun default => by split <;> simp_all
  | cons c cs =>
    cases hafter : ref.dropWhile (· != ':') with
    | nil => exact Or.inr fun default => rfl
    | cons d rest =>
      by_cases hscheme : (CharClass.isAsciiLetter c && (c :: cs).all isSchemeChar) = true
      · exact Or.inl ⟨(c :: cs).map lowerAscii, rest, by simp, fun default => if_pos hscheme⟩
      · exact Or.inr fun default => if_neg hscheme

/-- The scheme of a text with another scheme than the base is written in it. -/
theorem parse_of_scheme_ne (h : parseWith b.scheme ref = .ok r) (hne : r.scheme ≠ b.scheme) :
    parse ref = .ok r ∧ r.scheme ≠ [] := by
  obtain ⟨after, rest, before, full, hscheme, hparts⟩ := parseWith_ok.1 h
  rcases splitScheme_cases (cleaned ref) with ⟨scheme, afterScheme, hempty, hall⟩ | hall
  · rw [hall] at hscheme
    obtain ⟨rfl, rfl⟩ := Prod.mk.inj hscheme
    exact ⟨parseWith_ok.2 ⟨_, rest, before, full, hall [], hparts⟩, hempty⟩
  · rw [hall] at hscheme
    exact absurd (Prod.mk.inj hscheme).1.symm hne

/-- Equal texts have equal schemes. -/
theorem scheme_of_text (hu : parse ref = .ok u) (hne : u.scheme ≠ []) {fragment : List Char}
    (hb : b.Absolute) (h : ({ u with fragment } : Uri).text = b.text) : u.scheme = b.scheme := by
  have hcolon : ':' ∉ u.scheme := by
    intro hc
    obtain ⟨after, rest, before, full, hscheme, -⟩ := parseWith_ok.1 hu
    have hmem : ':' ∈ (splitScheme [] (cleaned ref)).1 := by rwa [hscheme]
    cases isSchemeChar_of_mem_scheme hmem
  have htake : ∀ {s t : List Char}, ':' ∉ s → (s ++ ':' :: t).takeWhile (· != ':') = s := by
    intro s t hs
    have hall : ∀ c ∈ s, (c != ':') = true := by
      intro c hc
      rw [bne_iff_ne]
      rintro rfl
      exact hs hc
    rw [List.takeWhile_append_of_pos hall, List.takeWhile_cons_of_neg (by simp), List.append_nil]
  have hbcolon : ':' ∉ b.scheme := by
    rcases hb.http with hs | hs <;> rw [hs] <;> decide
  have hutext : ∃ t, ({ u with fragment } : Uri).text = u.scheme ++ ':' :: t := by
    have hempty : u.scheme.isEmpty = false := by simpa using hne
    unfold text
    simp [hempty]
  obtain ⟨t, ht⟩ := hutext
  rw [ht, text_eq hb.http hb.located] at h
  rw [← htake hcolon (t := t), h, htake hbcolon]

/-- An absolute URI of the scheme of the base is joined again, from its fragment if it is in the
document of the base. -/
theorem join_written_absolute {v : Uri} (hb : parse base = .ok b) (habs : b.Absolute)
    (htext : b.text = base) (hfragment : b.fragment = []) (hv : v.Absolute)
    (hscheme : b.scheme = v.scheme) :
    ∃ document fragment, defragment v.text = .ok (document, fragment) ∧
      join base (if document = base then '#' :: fragment else v.text) = .ok v.text ∧
      ∀ c ∈ fragment, c ∈ v.text := by
  have hne : base ≠ [] := htext ▸ text_ne_nil habs
  obtain ⟨document, fragment, hdefrag, hsplit, hmem⟩ := defragment_text hv
  refine ⟨document, fragment, hdefrag, ?_, fun c hc => ?_⟩
  · split
    · rename_i hdocument
      rw [join_hash hb habs htext hfragment fun c hc => hv.kept c (hmem c hc), hsplit, hdocument]
    · exact join_text hv hne hb hscheme
  · rw [hsplit, marked, if_neg (by simpa using List.ne_nil_of_mem hc)]
    exact List.mem_append_right _ (List.mem_cons_of_mem _ hc)

/-- A reference of another scheme is not in the document of the base. -/
theorem defragment_other (habs : b.Absolute) (htext : b.text = base)
    (hr : parseWith b.scheme ref = .ok r) (hscheme : r.scheme ≠ b.scheme) :
    ∃ document fragment, defragment ref = .ok (document, fragment) ∧ document ≠ base ∧
      ∀ c ∈ fragment, c ∈ ref := by
  obtain ⟨hparse, hne⟩ := parse_of_scheme_ne hr hscheme
  unfold defragment
  split
  · rw [hparse]
    refine ⟨_, _, rfl, ?_, fun c hc => ?_⟩
    · rw [← htext]
      exact fun heq => hscheme (scheme_of_text hparse hne habs heq)
    · exact (mem_cleaned (mem_rest_of_parseWith hparse (List.mem_append_right _ hc))).1
  · refine ⟨_, _, rfl, ?_, by simp⟩
    rintro rfl
    have hself := parseWith_text habs b.scheme
    rw [htext, hr] at hself
    exact hscheme (by rw [Except.ok.inj hself]; rfl)

theorem scheme_resolve_absolute (habs : b.Absolute) (hscheme : r.scheme = b.scheme) :
    (resolve b r).scheme = b.scheme := by
  rcases resolve_cases (b := b) (hscheme ▸ habs.http : IsHttp r.scheme).authority with
    ⟨-, hr⟩ | ⟨-, -, hr⟩ | ⟨-, -, hr⟩
  all_goals rw [hr]; exact hscheme

/-- What is resolved holds characters of the base and of the reference, and marks between them. -/
theorem mem_text_resolve (hb : parse base = .ok b) (habs : b.Absolute) (htext : b.text = base)
    (hr : parseWith b.scheme ref = .ok r) (hscheme : r.scheme = b.scheme) :
    ∀ c ∈ (resolve b r).text, c ∈ base ∨ c ∈ ref ∨ isMark c := by
  have hbase : ∀ d, d ∈ b.scheme ∨ d ∈ b.rest → d ∈ base := by
    rintro d (hd | hd)
    · rw [← htext, text_eq habs.http habs.located]
      exact List.mem_append_left _ hd
    · exact (mem_cleaned (mem_rest_of_parseWith hb hd)).1
  intro c hc
  rcases mem_text_rest hc with hc | hc | hc
  · rw [scheme_resolve_absolute habs hscheme] at hc
    exact Or.inl (hbase c (Or.inl hc))
  · rcases mem_rest_resolve (hscheme ▸ habs.http : IsHttp r.scheme).authority hc with rfl | hc | hc
    · exact Or.inr (Or.inr (Or.inr (Or.inl rfl)))
    · exact Or.inl (hbase c (Or.inr hc))
    · exact Or.inr (Or.inl (mem_cleaned (mem_rest_of_parseWith hr hc)).1)
  · exact Or.inr (Or.inr hc)

/-- A joined reference, written as its fragment if its document is the base and as it is otherwise,
is joined to itself. Its characters are those of both references and marks. -/
theorem join_written (hb : parse base = .ok b) (habs : b.Absolute) (htext : b.text = base)
    (hfragment : b.fragment = []) (h : join base ref = .ok uri) :
    ∃ document fragment, defragment uri = .ok (document, fragment) ∧
      join base (if document = base then '#' :: fragment else uri) = .ok uri ∧
      (∀ c ∈ fragment, c ∈ uri) ∧ (∀ c ∈ uri, c ∈ base ∨ c ∈ ref ∨ isMark c) ∧ uri ≠ [] := by
  have hne : base ≠ [] := htext ▸ text_ne_nil habs
  rcases join_cases hb hne habs.http h with rfl | ⟨r, hr, ⟨hscheme, rfl, href⟩ | ⟨hscheme, rfl⟩⟩
  · obtain ⟨document, fragment, hdefrag, hjoin, hmem⟩ :=
      join_written_absolute hb habs htext hfragment habs rfl
    rw [htext] at hdefrag hjoin hmem
    exact ⟨document, fragment, hdefrag, hjoin, hmem, fun c hc => Or.inl hc, hne⟩
  · obtain ⟨document, fragment, hdefrag, hdocument, hmem⟩ := defragment_other habs htext hr hscheme
    refine ⟨document, fragment, hdefrag, ?_, hmem, fun c hc => Or.inr (Or.inl hc), href⟩
    rw [if_neg hdocument]
    exact h
  · have hv := absolute_resolve habs hr hscheme
    obtain ⟨document, fragment, hdefrag, hjoin, hmem⟩ :=
      join_written_absolute hb habs htext hfragment hv (scheme_resolve_absolute habs hscheme).symm
    exact ⟨document, fragment, hdefrag, hjoin, hmem,
      mem_text_resolve hb habs htext hr hscheme, text_ne_nil hv⟩

end Join

end Wadl.Uri
