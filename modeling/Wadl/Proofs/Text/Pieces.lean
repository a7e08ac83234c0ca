import Wadl.Text.Blank

/-!
# Pieces, words and line ends

A text is cut into pieces at the characters that satisfy a condition. Joining the pieces between the
occurrences of one character undoes the cut (`intercalate_pieces`), and cutting undoes the joining
of pieces that do not hold such characters (`pieces_intercalate`). So words that are joined by
spaces are read back as they were (`wordsOf_intercalate`). The runs between cuts are those before a
cut and those after it (`runs_append_cons`).

Unified line ends are line feeds: no carriage return is left (`mem_unifyLineEnds`), so what holds
none stays as it is (`unifyLineEnds_eq_self`). Texts can be unified one by one, unless they cut a
line end between its carriage return and its line feed (`unifyLineEnds_append`).
-/

namespace Wadl

/-- The elements of joined lists are those of the lists and of the separator. -/
theorem mem_intercalate {α : Type} {sep : List α} {c : α} :
    ∀ {xs : List (List α)}, c ∈ sep.intercalate xs → c ∈ sep ∨ ∃ x ∈ xs, c ∈ x
  | [], h => by cases h
  | [x], h => by
    rw [List.intercalate_singleton] at h
    exact Or.inr ⟨x, List.mem_singleton_self x, h⟩
  | x :: y :: xs, h => by
    rw [List.intercalate_cons_cons, List.mem_append, List.mem_append] at h
    rcases h with (h | h) | h
    · exact Or.inr ⟨x, List.mem_cons_self, h⟩
    · exact Or.inl h
    · exact (mem_intercalate h).imp_right fun ⟨z, hz, hc⟩ => ⟨z, List.mem_cons_of_mem x hz, hc⟩

/-- What is in a piece is in the pieces joined. -/
theorem mem_intercalate_of_mem {α : Type} {sep x : List α} {c : α} (hc : c ∈ x) :
    ∀ {xs : List (List α)}, x ∈ xs → c ∈ sep.intercalate xs
  | [y], h => by
    rw [List.intercalate_singleton, ← List.mem_singleton.1 h]
    exact hc
  | y :: z :: xs, h => by
    rw [List.intercalate_cons_cons]
    rcases List.mem_cons.1 h with rfl | h
    · exact List.mem_append_left _ (List.mem_append_left _ hc)
    · exact List.mem_append_right _ (mem_intercalate_of_mem hc h)

namespace Text

variable {p : Char → Bool} {sep c : Char}

theorem pieces_nil (p : Char → Bool) : pieces p [] = [[]] := rfl

/-- There is always a piece, if an empty one. -/
theorem pieces_ne_nil (p : Char → Bool) (cs : List Char) : pieces p cs ≠ [] := by
  cases cs with
  | nil => exact List.cons_ne_nil _ _
  | cons c cs =>
    unfold pieces
    split
    · simp
    · split <;> simp

/-- The pieces of a text are those of the rest, the first of them with one more character or after
an empty one. -/
theorem pieces_cons (p : Char → Bool) (c : Char) (cs : List Char) :
    ∃ w ws, pieces p cs = w :: ws ∧
      pieces p (c :: cs) = if p c then [] :: w :: ws else (c :: w) :: ws := by
  obtain ⟨w, ws, hws⟩ := List.exists_cons_of_ne_nil (pieces_ne_nil p cs)
  refine ⟨w, ws, hws, ?_⟩
  rw [pieces, hws]

/-- A cut ends an empty piece. -/
theorem pieces_cons_of_cut (hc : p c = true) (cs : List Char) :
    pieces p (c :: cs) = [] :: pieces p cs := by
  obtain ⟨w, ws, hws, hcons⟩ := pieces_cons p c cs
  rw [hcons, if_pos hc, hws]

/-- Other characters belong to the first piece. -/
theorem pieces_cons_of_noCut (hc : p c = false) {cs w : List Char} {ws : List (List Char)}
    (hws : pieces p cs = w :: ws) : pieces p (c :: cs) = (c :: w) :: ws := by
  obtain ⟨v, vs, hvs, hcons⟩ := pieces_cons p c cs
  rw [hws] at hvs
  rw [hcons, if_neg (by simp [hc]), (List.cons.inj hvs).1, (List.cons.inj hvs).2]

/-- Pieces joined by their separator are the text that was cut. -/
theorem intercalate_pieces (sep : Char) (cs : List Char) :
    [sep].intercalate (pieces (· == sep) cs) = cs := by
  induction cs with
  | nil => rfl
  | cons c cs ih =>
    obtain ⟨w, ws, hws, hcons⟩ := pieces_cons (· == sep) c cs
    rw [hws] at ih
    rw [hcons]
    split
    · rename_i hc
      rw [List.intercalate_cons_cons, ih, beq_iff_eq.1 hc]
      rfl
    · cases ws with
      | nil =>
        rw [List.intercalate_singleton] at ih ⊢
        rw [ih]
      | cons v ws =>
        rw [List.intercalate_cons_cons] at ih ⊢
        rw [List.cons_append, List.cons_append, ih]

/-- The pieces hold the characters of the text that are no cuts. -/
theorem mem_of_mem_pieces :
    ∀ {cs w : List Char}, w ∈ pieces p cs → c ∈ w → c ∈ cs ∧ p c = false
  | [], w, hw, hc => by
    rw [pieces_nil, List.mem_singleton] at hw
    rw [hw] at hc
    cases hc
  | d :: cs, w, hw, hc => by
    obtain ⟨v, vs, hvs, hcons⟩ := pieces_cons p d cs
    have hrest : w ∈ pieces p cs → c ∈ d :: cs ∧ p c = false := fun h =>
      ⟨List.mem_cons_of_mem d (mem_of_mem_pieces h hc).1, (mem_of_mem_pieces h hc).2⟩
    rw [hcons] at hw
    split at hw
    · rcases List.mem_cons.1 hw with rfl | hw
      · cases hc
      · exact hrest (by rwa [hvs])
    · rename_i hd
      rcases List.mem_cons.1 hw with rfl | hw
      · rcases List.mem_cons.1 hc with rfl | hc
        · exact ⟨List.mem_cons_self, by simpa using hd⟩
        · have hv : v ∈ pieces p cs := by
            rw [hvs]
            exact List.mem_cons_self
          exact ⟨List.mem_cons_of_mem d (mem_of_mem_pieces hv hc).1, (mem_of_mem_pieces hv hc).2⟩
      · exact hrest (by rw [hvs]; exact List.mem_cons_of_mem v hw)

/-- The first piece ends at the first cut. -/
theorem pieces_append_cut (hcut : p sep = true) (cs : List Char) :
    ∀ {w : List Char}, (∀ c ∈ w, p c = false) → pieces p (w ++ sep :: cs) = w :: pieces p cs
  | [], _ => pieces_cons_of_cut hcut cs
  | c :: w, hw => by
    have hc : p c = false := hw c List.mem_cons_self
    have ih := pieces_append_cut hcut cs fun d hd => hw d (List.mem_cons_of_mem c hd)
    exact pieces_cons_of_noCut hc ih

theorem pieces_of_noCut : ∀ {w : List Char}, (∀ c ∈ w, p c = false) → pieces p w = [w]
  | [], _ => rfl
  | c :: w, hw => by
    have hc : p c = false := hw c List.mem_cons_self
    have ih := pieces_of_noCut fun d hd => hw d (List.mem_cons_of_mem c hd)
    exact pieces_cons_of_noCut hc ih

/-- Characters that are no cuts stand before the first piece of what follows them. -/
theorem pieces_append_noCut (cs : List Char) :
    ∀ {w : List Char},
      (∀ c ∈ w, p c = false) → pieces p (w ++ cs) = (pieces p cs).modifyHead (w ++ ·)
  | [], _ => by
    obtain ⟨v, vs, hvs⟩ := List.exists_cons_of_ne_nil (pieces_ne_nil p cs)
    rw [List.nil_append, hvs]
    rfl
  | c :: w, hw => by
    obtain ⟨v, vs, hvs⟩ := List.exists_cons_of_ne_nil (pieces_ne_nil p cs)
    have hc : p c = false := hw c List.mem_cons_self
    have ih := pieces_append_noCut cs fun d hd => hw d (List.mem_cons_of_mem c hd)
    rw [hvs, List.modifyHead_cons] at ih ⊢
    exact pieces_cons_of_noCut hc ih

/-- Pieces that follow the first one after a cut each. -/
theorem pieces_append_flatMap (hcut : p sep = true) :
    ∀ {ws : List (List Char)} {w : List Char}, (∀ c ∈ w, p c = false) →
      (∀ v ∈ ws, ∀ c ∈ v, p c = false) → pieces p (w ++ ws.flatMap (sep :: ·)) = w :: ws
  | [], w, hw, _ => by
    rw [List.flatMap_nil, List.append_nil]
    exact pieces_of_noCut hw
  | v :: ws, w, hw, hws => by
    obtain ⟨hv, hws⟩ := List.forall_mem_cons.1 hws
    rw [List.flatMap_cons, List.cons_append, pieces_append_cut hcut _ hw,
      pieces_append_flatMap hcut hv hws]

theorem pieces_append_cons (hcut : p sep = true) (ds : List Char) :
    ∀ cs : List Char, pieces p (cs ++ sep :: ds) = pieces p cs ++ pieces p ds
  | [] => by
    exact pieces_cons_of_cut hcut ds
  | c :: cs => by
    obtain ⟨w, ws, hws, hcons⟩ := pieces_cons p c cs
    have ih := pieces_append_cons hcut ds cs
    rw [hws] at ih
    rw [hcons, List.cons_append, pieces, ih]
    split <;> rfl

/-- Each character that is no cut stands in a piece. -/
theorem exists_mem_pieces (hc : p c = false) : ∀ {cs : List Char}, c ∈ cs → ∃ w ∈ pieces p cs, c ∈ w
  | d :: cs, h => by
    obtain ⟨w, ws, hws, hcons⟩ := pieces_cons p d cs
    rw [hcons]
    rcases List.mem_cons.1 h with rfl | h
    · rw [if_neg (by simp [hc])]
      exact ⟨_, List.mem_cons_self, List.mem_cons_self⟩
    · obtain ⟨v, hv, hmem⟩ := exists_mem_pieces hc h
      rw [hws] at hv
      split
      · exact ⟨v, List.mem_cons_of_mem _ hv, hmem⟩
      · rcases List.mem_cons.1 hv with rfl | hv
        · exact ⟨_, List.mem_cons_self, List.mem_cons_of_mem _ hmem⟩
        · exact ⟨v, List.mem_cons_of_mem _ hv, hmem⟩

theorem runs_ne_nil {cs : List Char} (hc : p c = false) (h : c ∈ cs) : runs p cs ≠ [] := by
  obtain ⟨w, hw, hmem⟩ := exists_mem_pieces hc h
  refine List.ne_nil_of_mem (List.mem_filter.2 ⟨hw, ?_⟩)
  simpa using List.ne_nil_of_mem hmem

/-- A cut ends a run, and all runs of a text are known from this. -/
theorem runs_append_cons (hc : p c = true) (cs ds : List Char) :
    runs p (cs ++ c :: ds) = runs p cs ++ runs p ds := by
  rw [runs, pieces_append_cons hc, List.filter_append, runs, runs]

theorem runs_nil (p : Char → Bool) : runs p [] = [] := rfl

theorem runs_append_cuts {bs : List Char} (hbs : ∀ c ∈ bs, p c = true) (cs : List Char) :
    runs p (cs ++ bs) = runs p cs := by
  induction bs generalizing cs with
  | nil => rw [List.append_nil]
  | cons c bs ih =>
    obtain ⟨hc, hbs⟩ := List.forall_mem_cons.1 hbs
    have hnone := ih hbs []
    rw [List.nil_append, runs_nil] at hnone
    rw [runs_append_cons hc, hnone, List.append_nil]

theorem runs_cuts_append {bs : List Char} (hbs : ∀ c ∈ bs, p c = true) (cs : List Char) :
    runs p (bs ++ cs) = runs p cs := by
  induction bs with
  | nil => rfl
  | cons c bs ih =>
    obtain ⟨hc, hbs⟩ := List.forall_mem_cons.1 hbs
    have hcut := runs_append_cons hc [] (bs ++ cs)
    rw [List.nil_append, runs_nil, List.nil_append] at hcut
    rw [List.cons_append, hcut, ih hbs]

theorem runs_of_cuts {bs : List Char} (hbs : ∀ c ∈ bs, p c = true) : runs p bs = [] :=
  runs_append_cuts hbs []

/-- A text with a cut inside has more than one run. -/
theorem two_le_length_runs {cs : List Char} (hhead : ∀ d, cs.head? = some d → p d = false)
    (hlast : ∀ d, cs.getLast? = some d → p d = false) (hc : p c = true) (h : c ∈ cs) :
    2 ≤ (runs p cs).length := by
  obtain ⟨before, after, rfl⟩ := List.append_of_mem h
  have hbefore : 1 ≤ (runs p before).length := by
    cases before with
    | nil => exact absurd (hhead c rfl) (by simp [hc])
    | cons d ds => exact List.length_pos_iff.2 (runs_ne_nil (hhead d rfl) List.mem_cons_self)
  have hafter : 1 ≤ (runs p after).length := by
    rcases List.eq_nil_or_concat after with rfl | ⟨ds, d, rfl⟩
    · exact absurd (hlast c (by simp)) (by simp [hc])
    · have happ : before ++ c :: ds.concat d = (before ++ c :: ds) ++ [d] := by simp
      rw [happ] at hlast
      exact List.length_pos_iff.2 (runs_ne_nil (hlast d List.getLast?_concat) (by simp))
  rw [runs_append_cons hc, List.length_append]
  exact Nat.add_le_add hbefore hafter

/-- Joined pieces are cut where they were joined. -/
theorem pieces_intercalate (hcut : p sep = true) :
    ∀ {ws : List (List Char)}, ws ≠ [] → (∀ w ∈ ws, ∀ c ∈ w, p c = false) →
      pieces p ([sep].intercalate ws) = ws
  | [w], _, hws => by
    rw [List.intercalate_singleton]
    exact pieces_of_noCut (hws w (List.mem_singleton_self w))
  | w :: v :: ws, _, hws => by
    have ih := pieces_intercalate hcut (List.cons_ne_nil v ws)
      fun u hu => hws u (List.mem_cons_of_mem w hu)
    rw [List.intercalate_cons_cons, List.append_assoc, List.singleton_append,
      pieces_append_cut hcut _ (hws w List.mem_cons_self), ih]

end Text

/-! ## Words -/

/-- A text that can stand among others as a word. -/
def IsWord (s : String) : Prop := s ≠ "" ∧ ∀ c ∈ s.toList, Text.isBlank c = false

theorem isWord_of_mem_wordsOf {s w : String} (h : w ∈ wordsOf s) : IsWord w := by
  obtain ⟨cs, hcs, rfl⟩ := List.mem_map.1 h
  obtain ⟨hpiece, hne⟩ := List.mem_filter.1 hcs
  refine ⟨?_, fun c hc => ?_⟩
  · intro hempty
    rw [String.ofList_eq_empty_iff] at hempty
    simp [hempty] at hne
  · rw [String.toList_ofList] at hc
    exact (Text.mem_of_mem_pieces hpiece hc).2

/-- The characters of the words are characters of the text. -/
theorem mem_of_mem_wordsOf {s w : String} (h : w ∈ wordsOf s) {c : Char} (hc : c ∈ w.toList) :
    c ∈ s.toList := by
  obtain ⟨cs, hcs, rfl⟩ := List.mem_map.1 h
  rw [String.toList_ofList] at hc
  exact (Text.mem_of_mem_pieces (List.mem_filter.1 hcs).1 hc).1

/-- Words joined by spaces are read back. -/
theorem wordsOf_intercalate {ws : List String} (h : ∀ w ∈ ws, IsWord w) :
    wordsOf (" ".intercalate ws) = ws := by
  cases ws with
  | nil => rfl
  | cons v vs =>
    have hpieces : Text.pieces Text.isBlank (" ".intercalate (v :: vs)).toList =
        (v :: vs).map String.toList := by
      rw [String.toList_intercalate]
      refine Text.pieces_intercalate (by decide) (by simp) fun w hw => ?_
      obtain ⟨s, hs, rfl⟩ := List.mem_map.1 hw
      exact (h s hs).2
    have hkept : ((v :: vs).map String.toList).filter (fun w => !w.isEmpty) =
        (v :: vs).map String.toList := by
      rw [List.filter_eq_self]
      intro w hw
      obtain ⟨s, hs, rfl⟩ := List.mem_map.1 hw
      simpa using (h s hs).1
    rw [wordsOf, Text.runs, hpieces, hkept, List.map_map]
    simp

end Wadl

/-! ## Line ends -/

namespace Wadl.Text

theorem unifyLineEnds_nil : unifyLineEnds [] = [] := rfl

theorem unifyLineEnds_pair (cs : List Char) :
    unifyLineEnds ('\r' :: '\n' :: cs) = '\n' :: unifyLineEnds cs := rfl

theorem unifyLineEnds_return {cs : List Char} (h : ∀ rest, cs ≠ '\n' :: rest) :
    unifyLineEnds ('\r' :: cs) = '\n' :: unifyLineEnds cs := by
  rw [unifyLineEnds]
  exact h

theorem unifyLineEnds_other {c : Char} (h : c ≠ '\r') (cs : List Char) :
    unifyLineEnds (c :: cs) = c :: unifyLineEnds cs := by
  rw [unifyLineEnds]
  · rintro rest rfl
    exact absurd rfl h
  · exact h

/-- Unifying takes the carriage returns out, and brings in nothing but line feeds. -/
theorem mem_unifyLineEnds {cs : List Char} {c : Char} (h : c ∈ unifyLineEnds cs) :
    c ≠ '\r' ∧ (c = '\n' ∨ c ∈ cs) := by
  induction cs using unifyLineEnds.induct with
  | case1 => cases h
  | case2 cs ih =>
    rw [unifyLineEnds_pair, List.mem_cons] at h
    rcases h with rfl | h
    · exact ⟨by decide, Or.inl rfl⟩
    · exact (ih h).imp_right
        (Or.imp_right fun hc => List.mem_cons_of_mem _ (List.mem_cons_of_mem _ hc))
  | case3 cs hpair ih =>
    rw [unifyLineEnds_return hpair, List.mem_cons] at h
    rcases h with rfl | h
    · exact ⟨by decide, Or.inl rfl⟩
    · exact (ih h).imp_right (Or.imp_right (List.mem_cons_of_mem _))
  | case4 d cs hpair hsingle ih =>
    rw [unifyLineEnds_other hsingle, List.mem_cons] at h
    rcases h with rfl | h
    · exact ⟨hsingle, Or.inr List.mem_cons_self⟩
    · exact (ih h).imp_right (Or.imp_right (List.mem_cons_of_mem _))

/-- What holds no carriage return before it is unified on its own. -/
theorem unifyLineEnds_append_of_notMem {cs : List Char} (h : '\r' ∉ cs) (ds : List Char) :
    unifyLineEnds (cs ++ ds) = cs ++ unifyLineEnds ds := by
  induction cs with
  | nil => rfl
  | cons c cs ih =>
    rw [List.mem_cons, not_or] at h
    rw [List.cons_append, unifyLineEnds_other (Ne.symm h.1), ih h.2, List.cons_append]

theorem unifyLineEnds_eq_self {cs : List Char} : unifyLineEnds cs = cs ↔ '\r' ∉ cs := by
  constructor
  · intro h hmem
    rw [← h] at hmem
    exact (mem_unifyLineEnds hmem).1 rfl
  · intro h
    have happend := unifyLineEnds_append_of_notMem h []
    rwa [List.append_nil, unifyLineEnds_nil, List.append_nil] at happend

/-- Texts are unified one by one, if the second begins with no line feed. -/
theorem unifyLineEnds_append {ds : List Char} (h : ds.head? ≠ some '\n') (cs : List Char) :
    unifyLineEnds (cs ++ ds) = unifyLineEnds cs ++ unifyLineEnds ds := by
  induction cs using unifyLineEnds.induct with
  | case1 => rfl
  | case2 cs ih =>
    rw [List.cons_append, List.cons_append, unifyLineEnds_pair, unifyLineEnds_pair,
      ih, List.cons_append]
  | case3 cs hpair ih =>
    have hhead : ∀ rest, cs ++ ds ≠ '\n' :: rest := by
      intro rest heq
      cases cs with
      | nil => exact h (congrArg List.head? heq)
      | cons c cs => exact hpair cs (by rw [(List.cons.inj heq).1])
    rw [List.cons_append, unifyLineEnds_return hhead, unifyLineEnds_return hpair,
      ih, List.cons_append]
  | case4 c cs hpair hsingle ih =>
    rw [List.cons_append, unifyLineEnds_other hsingle, unifyLineEnds_other hsingle,
      ih, List.cons_append]

end Wadl.Text
