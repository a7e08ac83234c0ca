import Wadl.Proofs.Docs.Words
import Wadl.Proofs.Xml.Flat

/-!
# Paragraphs of plain documentation

A text without markup is cut into paragraphs at two newlines with only white space between them
(`Cut`). However it is cut, the words of its paragraphs are those of the paragraphs that a page is
made of (`stanzas_of_cut`): scanning goes on after a break as at the beginning (`stanzas_break`).
What is shown of paragraphs depends on their words only (`shown_congr`), and the text of a page is
what is shown, with an empty line between (`Page.text_write`). So plain documentation becomes the
spaced paragraphs with words, and these become themselves (`Doc.plainText_paragraphs`).
-/

namespace Wadl

open Text

namespace DocText

/-! ## Cuts at breaks -/

/-- Two newlines with only white space between them. -/
def IsBreak (cs : List Char) : Prop :=
  ∃ bs, (∀ c ∈ bs, isBlank c = true) ∧ cs = '\n' :: (bs ++ ['\n'])

/-- A text in which no paragraph ends. -/
def Unbroken (cs : List Char) : Prop := ∀ b, IsBreak b → ¬b <:+: cs

/-- A text is cut at breaks into pieces in which there is none. -/
inductive Cut : List Char → List (List Char) → Prop where
  | whole {cs : List Char} (unbroken : Unbroken cs) : Cut cs [cs]
  | part {cs b rest : List Char} {ps : List (List Char)} (unbroken : Unbroken cs)
      (isBreak : IsBreak b) (cut : Cut rest ps) : Cut (cs ++ (b ++ rest)) (cs :: ps)

/-- A part of a paragraph has no break in it either. -/
theorem Unbroken.of_infix {cs ds : List Char} (h : Unbroken ds) (hpart : cs <:+: ds) :
    Unbroken cs :=
  fun b hb hmem => h b hb (hmem.trans hpart)

/-- A single line has no break in it. -/
theorem unbroken_of_notMem {cs : List Char} (h : '\n' ∉ cs) : Unbroken cs := by
  rintro b ⟨bs, -, rfl⟩ hpart
  exact h (hpart.subset List.mem_cons_self)

/-- A break that a character brings about stands at the beginning. -/
theorem exists_break_of_cons {c : Char} {cs : List Char} (h : Unbroken cs)
    (hc : ¬Unbroken (c :: cs)) : ∃ b rest, IsBreak b ∧ c :: cs = b ++ rest ∧ Unbroken rest := by
  simp only [Unbroken, not_forall, not_not] at hc
  obtain ⟨b, hb, hpart⟩ := hc
  rcases List.infix_cons_iff.1 hpart with ⟨rest, hrest⟩ | hpart
  · refine ⟨b, rest, hb, hrest.symm, h.of_infix ?_⟩
    obtain ⟨bs, -, rfl⟩ := hb
    rw [List.cons_append] at hrest
    exact ⟨bs ++ ['\n'], [], by rw [List.append_nil]; exact (List.cons.inj hrest).2⟩
  · exact absurd hpart (h b hb)

/-- A break at the start cuts off an empty paragraph. -/
theorem Cut.break {b rest : List Char} {ps : List (List Char)} (hb : IsBreak b) (h : Cut rest ps) :
    Cut (b ++ rest) ([] :: ps) :=
  @Cut.part [] b rest ps (unbroken_of_notMem List.not_mem_nil) hb h

/-- Each text can be cut. -/
theorem exists_cut (cs : List Char) : ∃ ps, Cut cs ps := by
  induction cs with
  | nil => exact ⟨_, .whole (unbroken_of_notMem List.not_mem_nil)⟩
  | cons c cs ih =>
    obtain ⟨ps, hps⟩ := ih
    cases hps with
    | whole h =>
      by_cases hc : Unbroken (c :: cs)
      · exact ⟨_, .whole hc⟩
      · obtain ⟨b, rest, hb, heq, hrest⟩ := exists_break_of_cons h hc
        rw [heq]
        exact ⟨_, .break hb (.whole hrest)⟩
    | @part first b rest ps h hb hcut =>
      by_cases hc : Unbroken (c :: first)
      · exact ⟨_, .part hc hb hcut⟩
      · obtain ⟨b', rest', hb', heq, hrest⟩ := exists_break_of_cons h hc
        rw [← List.cons_append, heq, List.append_assoc]
        exact ⟨_, .break hb' (.part hrest hb hcut)⟩

/-- The pieces hold characters of the text. -/
theorem Cut.subset {cs : List Char} {ps : List (List Char)} (h : Cut cs ps) : ∀ p ∈ ps, p ⊆ cs := by
  induction h with
  | whole => simp
  | part _ _ _ ih =>
    refine List.forall_mem_cons.2 ⟨List.subset_append_left _ _, fun p hp => ?_⟩
    exact List.Subset.trans (ih p hp)
      (List.Subset.trans (List.subset_append_right _ _) (List.subset_append_right _ _))

/-- Lines with an empty line between them are cut there. -/
theorem cut_intercalate {lines : List (List Char)} (hne : lines ≠ []) (h : ∀ l ∈ lines, '\n' ∉ l) :
    Cut (['\n', '\n'].intercalate lines) lines := by
  induction lines with
  | nil => exact absurd rfl hne
  | cons l lines ih =>
    obtain ⟨hl, hlines⟩ := List.forall_mem_cons.1 h
    cases lines with
    | nil =>
      rw [List.intercalate_singleton]
      exact .whole (unbroken_of_notMem hl)
    | cons m lines =>
      rw [List.intercalate_cons_cons, List.append_assoc]
      exact .part (unbroken_of_notMem hl) ⟨[], by simp, rfl⟩ (ih (by simp) hlines)

/-! ## Scanning for paragraphs -/

section Scan

variable {chunk cs : List Char} {gap : Gap} {c : Char}

/-- A line end opens a gap; the lemmas below say what the next character does to it. -/
theorem paragraphs_newline :
    paragraphs chunk none ('\n' :: cs) = paragraphs chunk (some ⟨['\n'], false, []⟩) cs := by
  rw [paragraphs, if_pos rfl]

theorem paragraphs_other (hc : c ≠ '\n') :
    paragraphs chunk none (c :: cs) = paragraphs (c :: chunk) none cs := by
  rw [paragraphs, if_neg hc]

theorem paragraphs_gap_newline :
    paragraphs chunk (some gap) ('\n' :: cs) =
      paragraphs chunk (some ⟨'\n' :: gap.all, true, []⟩) cs := by
  rw [paragraphs, if_pos rfl]

theorem paragraphs_gap_blank (hc : c ≠ '\n') (hblank : isBlank c = true) :
    paragraphs chunk (some gap) (c :: cs) =
      paragraphs chunk (some ⟨c :: gap.all, gap.breaks, c :: gap.rest⟩) cs := by
  rw [paragraphs, if_neg hc, if_pos hblank]

theorem paragraphs_gap_other (hblank : isBlank c = false) :
    paragraphs chunk (some gap) (c :: cs) =
      if gap.breaks then chunk.reverse :: paragraphs (c :: gap.rest) none cs
      else paragraphs (c :: gap.all ++ chunk) none cs := by
  have hc : c ≠ '\n' := by
    rintro rfl
    cases hblank
  rw [paragraphs, if_neg hc, if_neg (by simp [hblank])]

end Scan

/-- The words of the pieces that have any. -/
def stanzas (ps : List (List Char)) : List (List (List Char)) :=
  (ps.map (runs Text.isBlank)).filter (!·.isEmpty)

/-- Stanzas are those of the paragraphs one by one. -/
theorem stanzas_append (ps qs : List (List Char)) :
    stanzas (ps ++ qs) = stanzas ps ++ stanzas qs := by
  rw [stanzas, List.map_append, List.filter_append, stanzas, stanzas]

theorem stanzas_cons (p : List Char) (ps : List (List Char)) :
    stanzas (p :: ps) = stanzas [p] ++ stanzas ps :=
  stanzas_append [p] ps

/-- A stanza depends on its words alone. -/
theorem stanzas_singleton_congr {p q : List Char} (h : runs Text.isBlank p = runs Text.isBlank q) :
    stanzas [p] = stanzas [q] := by
  rw [stanzas, stanzas, List.map_singleton, List.map_singleton, h]

/-- A paragraph of white space yields none. -/
theorem stanzas_of_blank {p : List Char} (h : ∀ c ∈ p, isBlank c = true) : stanzas [p] = [] := by
  rw [stanzas, List.map_singleton, runs_of_cuts h]
  rfl

section Stanzas

variable {chunk cs : List Char} {gap? : Option Gap} {gap : Gap}

/-- What is put before the first paragraph stands at its beginning. -/
theorem paragraphs_append (bs chunk : List Char) (gap? : Option Gap) (cs : List Char) :
    paragraphs (chunk ++ bs) gap? cs = (paragraphs chunk gap? cs).modifyHead (bs.reverse ++ ·) := by
  fun_induction paragraphs chunk gap? cs with
  | case1 chunk => simp [paragraphs]
  | case2 chunk gap hbreaks => simp [paragraphs, hbreaks]
  | case3 chunk gap hbreaks => simp [paragraphs, hbreaks]
  | case4 chunk cs ih => rw [paragraphs_newline, ih]
  | case5 chunk c cs hc ih => rw [paragraphs_other hc, ← ih, List.cons_append]
  | case6 chunk gap cs ih => rw [paragraphs_gap_newline, ih]
  | case7 chunk gap c cs hc hblank ih => rw [paragraphs_gap_blank hc hblank, ih]
  | case8 chunk gap c cs hc hblank hbreaks ih =>
    rw [paragraphs_gap_other (by simpa using hblank), if_pos hbreaks, List.reverse_append,
      List.modifyHead_cons]
  | case9 chunk gap c cs hc hblank hbreaks ih =>
    rw [paragraphs_gap_other (by simpa using hblank), if_neg hbreaks, ← ih, List.append_assoc]

/-- White space at the beginning of a paragraph changes no words. -/
theorem stanzas_blank_append {bs : List Char} (hbs : ∀ c ∈ bs, isBlank c = true) (chunk : List Char)
    (gap? : Option Gap) (cs : List Char) :
    stanzas (paragraphs (chunk ++ bs) gap? cs) = stanzas (paragraphs chunk gap? cs) := by
  have hblank : ∀ c ∈ bs.reverse, isBlank c = true := fun c hc => hbs c (List.mem_reverse.1 hc)
  rw [paragraphs_append]
  cases paragraphs chunk gap? cs with
  | nil => rfl
  | cons p ps =>
    rw [List.modifyHead_cons, stanzas_cons, stanzas_singleton_congr (runs_cuts_append hblank p),
      ← stanzas_cons]

/-- White space at the end of a paragraph changes no words. -/
theorem stanzas_end (hgap : ∀ gap ∈ gap?, gap.Blank) :
    stanzas (paragraphs chunk gap? []) = stanzas [chunk.reverse] := by
  cases gap? with
  | none => rw [paragraphs]
  | some gap =>
    have hblank := hgap gap rfl
    rw [paragraphs]
    split
    · have hrest : ∀ c ∈ gap.rest.reverse, isBlank c = true :=
        fun c hc => hblank.rest c (List.mem_reverse.1 hc)
      rw [stanzas_cons, stanzas_of_blank hrest, List.append_nil]
    · have hall : ∀ c ∈ gap.all.reverse, isBlank c = true :=
        fun c hc => hblank.all c (List.mem_reverse.1 hc)
      rw [List.reverse_append]
      exact stanzas_singleton_congr (runs_append_cuts hall chunk.reverse)

/-- After white space only, scanning goes on as at the beginning. -/
theorem stanzas_blank (hchunk : ∀ c ∈ chunk, isBlank c = true) (hgap : ∀ gap ∈ gap?, gap.Blank) :
    stanzas (paragraphs chunk gap? cs) = stanzas (paragraphs [] none cs) := by
  have hnone : ∀ gap ∈ (none : Option Gap), gap.Blank := fun _ h => by cases h
  induction cs generalizing chunk gap? with
  | nil =>
    rw [stanzas_end hgap, stanzas_end hnone]
    exact stanzas_of_blank fun c hc => hchunk c (List.mem_reverse.1 hc)
  | cons c cs ih =>
    by_cases hc : c = '\n'
    · obtain rfl := hc
      rw [paragraphs_newline, ih (List.forall_mem_nil _) Gap.blank_newline.some]
      cases gap? with
      | none => rw [paragraphs_newline, ih hchunk Gap.blank_newline.some]
      | some gap => rw [paragraphs_gap_newline, ih hchunk (hgap gap rfl).newline.some]
    · rw [paragraphs_other hc]
      by_cases hblank : isBlank c = true
      · rw [ih (List.forall_mem_singleton.2 hblank) hnone]
        cases gap? with
        | none => rw [paragraphs_other hc, ih (List.forall_mem_cons.2 ⟨hblank, hchunk⟩) hnone]
        | some gap =>
          rw [paragraphs_gap_blank hc hblank, ih hchunk ((hgap gap rfl).cons hblank).some]
      · cases gap? with
        | none => rw [paragraphs_other hc, ← stanzas_blank_append hchunk [c], List.singleton_append]
        | some gap =>
          obtain ⟨hall, hrest⟩ := hgap gap rfl
          rw [paragraphs_gap_other (by simpa using hblank)]
          split
          · rw [stanzas_cons, stanzas_of_blank fun c hc => hchunk c (List.mem_reverse.1 hc),
              List.nil_append, ← stanzas_blank_append hrest [c], List.singleton_append]
          · rw [← stanzas_blank_append (List.forall_mem_append.2 ⟨hall, hchunk⟩) [c],
              List.singleton_append, List.cons_append]

/-- After a break, scanning goes on as at the beginning. -/
theorem stanzas_gap (hgap : gap.Blank) (hbreaks : gap.breaks = true) :
    stanzas (paragraphs chunk (some gap) cs) =
      stanzas [chunk.reverse] ++ stanzas (paragraphs [] none cs) := by
  induction cs generalizing gap with
  | nil =>
    have hempty : stanzas [[]] = [] := stanzas_of_blank (List.forall_mem_nil _)
    rw [stanzas_end hgap.some, paragraphs, List.reverse_nil, hempty, List.append_nil]
  | cons c cs ih =>
    by_cases hc : c = '\n'
    · obtain rfl := hc
      rw [paragraphs_gap_newline, ih hgap.newline rfl, paragraphs_newline,
        stanzas_blank (List.forall_mem_nil _) Gap.blank_newline.some]
    · rw [paragraphs_other hc]
      by_cases hblank : isBlank c = true
      · rw [paragraphs_gap_blank hc hblank, ih (hgap.cons hblank) hbreaks,
          stanzas_blank (List.forall_mem_singleton.2 hblank) (by simp)]
      · rw [paragraphs_gap_other (by simpa using hblank), if_pos hbreaks, stanzas_cons,
          ← stanzas_blank_append hgap.rest [c], List.singleton_append]

/-- Scanning through white space to a newline makes a break. -/
theorem exists_gap_of_blank {bs rest : List Char} (hbs : ∀ c ∈ bs, isBlank c = true)
    (hgap : gap.Blank) : ∃ gap' : Gap, gap'.Blank ∧ gap'.breaks = true ∧
      paragraphs chunk (some gap) (bs ++ '\n' :: rest) = paragraphs chunk (some gap') rest := by
  induction bs generalizing gap with
  | nil => exact ⟨_, hgap.newline, rfl, paragraphs_gap_newline⟩
  | cons c bs ih =>
    obtain ⟨hc, hmore⟩ := List.forall_mem_cons.1 hbs
    by_cases hnewline : c = '\n'
    · obtain rfl := hnewline
      rw [List.cons_append, paragraphs_gap_newline]
      exact ih hmore hgap.newline
    · rw [List.cons_append, paragraphs_gap_blank hnewline hc]
      exact ih hmore (hgap.cons hc)

/-- A break ends a paragraph, and scanning goes on after it as at the beginning. -/
theorem stanzas_break {b rest : List Char} (hb : IsBreak b) (hgap : ∀ gap ∈ gap?, gap.Blank) :
    stanzas (paragraphs chunk gap? (cs ++ (b ++ rest))) =
      stanzas (paragraphs chunk gap? cs) ++ stanzas (paragraphs [] none rest) := by
  have hnone : ∀ gap ∈ (none : Option Gap), gap.Blank := fun _ h => by cases h
  induction cs generalizing chunk gap? with
  | nil =>
    obtain ⟨bs, hbs, rfl⟩ := hb
    obtain ⟨gap, hgap', hscan⟩ : ∃ gap : Gap, gap.Blank ∧
        paragraphs chunk gap? ('\n' :: (bs ++ '\n' :: rest)) =
          paragraphs chunk (some gap) (bs ++ '\n' :: rest) := by
      cases gap? with
      | none => exact ⟨_, Gap.blank_newline, paragraphs_newline⟩
      | some gap => exact ⟨_, (hgap gap rfl).newline, paragraphs_gap_newline⟩
    obtain ⟨gap'', hblank, hbreaks, hmore⟩ := @exists_gap_of_blank chunk gap bs rest hbs hgap'
    rw [stanzas_end hgap, ← stanzas_gap hblank hbreaks, ← hmore, ← hscan]
    simp
  | cons c cs ih =>
    rw [List.cons_append]
    cases gap? with
    | none =>
      by_cases hc : c = '\n'
      · obtain rfl := hc
        rw [paragraphs_newline, paragraphs_newline, ih Gap.blank_newline.some]
      · rw [paragraphs_other hc, paragraphs_other hc, ih hnone]
    | some gap =>
      have hblank := hgap gap rfl
      by_cases hc : c = '\n'
      · obtain rfl := hc
        rw [paragraphs_gap_newline, paragraphs_gap_newline, ih hblank.newline.some]
      · by_cases hspace : isBlank c = true
        · rw [paragraphs_gap_blank hc hspace, paragraphs_gap_blank hc hspace,
            ih (hblank.cons hspace).some]
        · rw [paragraphs_gap_other (by simpa using hspace),
            paragraphs_gap_other (by simpa using hspace)]
          split
          · rw [stanzas_cons _ (paragraphs _ _ (cs ++ _)), ih hnone,
              stanzas_cons _ (paragraphs _ _ cs), List.append_assoc]
          · rw [ih hnone]

/-- White space since one newline. -/
structure Gap.Pending (gap : Gap) (bs : List Char) : Prop where
  breaks : gap.breaks = false
  all : gap.all.reverse = '\n' :: bs
  blank : ∀ c ∈ bs, isBlank c = true

/-- Where no paragraph ends, all that is scanned belongs to one. -/
theorem paragraphs_of_unbroken (cs : List Char) :
    (∀ chunk, Unbroken cs → paragraphs chunk none cs = [chunk.reverse ++ cs]) ∧
    ∀ chunk (gap : Gap) bs, gap.Pending bs → Unbroken ('\n' :: (bs ++ cs)) →
      paragraphs chunk (some gap) cs = [chunk.reverse ++ '\n' :: (bs ++ cs)] := by
  induction cs with
  | nil =>
    refine ⟨fun chunk _ => by rw [paragraphs, List.append_nil], fun chunk gap bs hgap _ => ?_⟩
    rw [paragraphs, if_neg (by simp [hgap.breaks]), List.reverse_append, hgap.all, List.append_nil]
  | cons c cs ih =>
    obtain ⟨ihNone, ihSome⟩ := ih
    refine ⟨fun chunk h => ?_, fun chunk gap bs hgap h => ?_⟩
    · by_cases hc : c = '\n'
      · obtain rfl := hc
        rw [paragraphs_newline]
        exact ihSome chunk _ [] ⟨rfl, rfl, List.forall_mem_nil _⟩ h
      · rw [paragraphs_other hc, ihNone _ (h.of_infix (List.suffix_cons c cs).isInfix)]
        simp
    · by_cases hc : c = '\n'
      · -- the newline makes a break
        obtain rfl := hc
        exact absurd ⟨[], cs, by simp⟩ (h _ ⟨bs, hgap.blank, rfl⟩)
      · by_cases hblank : isBlank c = true
        · have hnext : Gap.Pending ⟨c :: gap.all, gap.breaks, c :: gap.rest⟩ (bs ++ [c]) :=
            ⟨hgap.breaks, by simp [hgap.all],
              List.forall_mem_append.2 ⟨hgap.blank, List.forall_mem_singleton.2 hblank⟩⟩
          rw [paragraphs_gap_blank hc hblank, ihSome chunk _ _ hnext (by simpa using h)]
          simp
        · have hrest : cs <:+: '\n' :: (bs ++ c :: cs) := ⟨'\n' :: (bs ++ [c]), [], by simp⟩
          rw [paragraphs_gap_other (by simpa using hblank), if_neg (by simp [hgap.breaks]),
            ihNone _ (h.of_infix hrest)]
          simp [hgap.all]

/-- However a text is cut, its paragraphs have the same words. -/
theorem stanzas_of_cut {ps : List (List Char)} (h : Cut cs ps) :
    stanzas (paragraphs [] none cs) = stanzas ps := by
  induction h with
  | whole h => rw [(paragraphs_of_unbroken _).1 [] h, List.reverse_nil, List.nil_append]
  | part h hb _ ih =>
    rw [stanzas_break hb (by simp), (paragraphs_of_unbroken _).1 [] h, List.reverse_nil,
      List.nil_append, ih, ← stanzas_cons]

end Stanzas

/-! ## What is shown -/

/-- Whether anything is seen of a text. -/
def isSeen (cs : List Char) : Bool := cs.any fun c => !isBlank c

/-- The paragraphs of which anything is seen, with single spaces between their words. -/
def shown (ps : List (List Char)) : List String :=
  (ps.filter isSeen).map fun p => spaced (String.ofList p)

/-- Only white space is not seen. -/
theorem isSeen_eq_false {cs : List Char} : isSeen cs = false ↔ ∀ c ∈ cs, isBlank c = true := by
  simp [isSeen]

theorem spaced_eq_empty {s : String} : spaced s = "" ↔ isSeen s.toList = false := by
  rw [isSeen_eq_false]
  refine ⟨fun h c hc => ?_, fun h => ?_⟩
  · have hink := ink_spaced s
    rw [h, String.toList_empty, ink_nil, ink, eq_comm, List.filter_eq_nil_iff] at hink
    simpa using hink c hc
  · rw [spaced, wordsOf, runs_of_cuts h]
    rfl

/-- What is seen has words. -/
theorem isSeen_eq_runs (cs : List Char) : isSeen cs = !(runs isBlank cs).isEmpty := by
  cases h : isSeen cs with
  | false =>
    rw [runs_of_cuts (isSeen_eq_false.1 h)]
    rfl
  | true =>
    obtain ⟨c, hc, hblank⟩ := List.any_eq_true.1 h
    simpa using runs_ne_nil (by simpa using hblank) hc

/-- What is shown depends on the words only. -/
theorem shown_congr {ps qs : List (List Char)} (h : stanzas ps = stanzas qs) :
    shown ps = shown qs := by
  have hshown : ∀ ps,
      shown ps = (stanzas ps).map fun ws => " ".intercalate (ws.map String.ofList) := by
    intro ps
    have hseen : (ps.filter isSeen) = ps.filter fun p => !(runs isBlank p).isEmpty := by
      simp only [← isSeen_eq_runs]
    rw [stanzas, List.filter_map, List.map_map, shown, hseen]
    simp [Function.comp_def, spaced, wordsOf]
  rw [hshown, hshown, h]

/-- Spacing a text twice is spacing it once. -/
theorem spaced_spaced (s : String) : spaced (spaced s) = spaced s := by
  rw [spaced, spaced, wordsOf_intercalate fun w hw => isWord_of_mem_wordsOf hw]

/-- Of the white space in a text, spaces are left and nothing else. -/
theorem mem_spaced {s : String} {c : Char} (h : c ∈ (spaced s).toList) :
    c = ' ' ∨ c ∈ s.toList ∧ isBlank c = false := by
  rw [spaced, String.toList_intercalate] at h
  rcases mem_intercalate h with h | ⟨cs, hcs, hc⟩
  · exact Or.inl (by simpa using h)
  · obtain ⟨w, hw, rfl⟩ := List.mem_map.1 hcs
    exact Or.inr ⟨mem_of_mem_wordsOf hw hc, (isWord_of_mem_wordsOf hw).2 c hc⟩

theorem exists_of_mem_shown {ps : List (List Char)} {s : String} (h : s ∈ shown ps) :
    ∃ p ∈ ps, s = spaced (String.ofList p) ∧ isSeen s.toList = true := by
  obtain ⟨p, hp, rfl⟩ := List.mem_map.1 h
  obtain ⟨hmem, hseen⟩ := List.mem_filter.1 hp
  refine ⟨p, hmem, rfl, ?_⟩
  rw [← Bool.not_eq_false, ← spaced_eq_empty, spaced_spaced, spaced_eq_empty,
    String.toList_ofList, hseen]
  exact Bool.noConfusion

/-- What is shown is shown as it is. -/
theorem shown_shown (ps : List (List Char)) : shown ((shown ps).map String.toList) = shown ps := by
  have hall : ∀ cs ∈ (shown ps).map String.toList,
      isSeen cs = true ∧ spaced (String.ofList cs) = String.ofList cs := by
    intro cs hcs
    obtain ⟨s, hs, rfl⟩ := List.mem_map.1 hcs
    obtain ⟨p, -, rfl, hseen⟩ := exists_of_mem_shown hs
    exact ⟨hseen, by rw [String.ofList_toList, spaced_spaced]⟩
  rw [shown, List.filter_eq_self.2 fun cs hcs => (hall cs hcs).1,
    List.map_congr_left fun cs hcs => (hall cs hcs).2, List.map_map]
  simp

end DocText

theorem intercalate_cons (sep : String) : ∀ (first : String) (rest : List String),
    sep.intercalate (first :: rest) = first ++ String.join (rest.map (sep ++ ·))
  | first, [] => by simp
  | first, s :: rest => by
    rw [String.intercalate_cons_cons, intercalate_cons sep s rest, List.map_cons, String.join_cons,
      String.append_assoc, String.append_assoc]

namespace DocText.Page

variable {p : Page}

/-- Paragraphs that are no items of a list stand one after another with an empty line between
them. -/
theorem text_of_noItems (h : ∀ b ∈ p.flush.blocks, b.isItem = false) :
    p.text = "\n\n".intercalate (p.flush.blocks.map (·.text)) := by
  cases hblocks : p.flush.blocks with
  | nil => exact p.text_nil hblocks
  | cons first more =>
    rw [hblocks] at h
    have hafter : ∀ pair ∈ more.zip (first :: more),
        pair.1.after pair.2 = "\n\n" ++ pair.1.text := by
      intro pair hpair
      have hitem := h pair.1 (List.mem_cons_of_mem first (List.of_mem_zip hpair).1)
      rw [Block.after, hitem]
      rfl
    have hmore : (more.zip (first :: more)).map (fun pair => "\n\n" ++ pair.1.text) =
        (((more.zip (first :: more)).map Prod.fst).map (·.text)).map ("\n\n" ++ ·) := by
      rw [List.map_map, List.map_map]
      rfl
    rw [p.text_cons hblocks, List.map_congr_left hafter, hmore,
      List.map_fst_zip (Nat.le_succ more.length), List.map_cons, intercalate_cons]

/-- A chunk adds its block, if any of it is seen. -/
theorem blocks_add (chunk : List Char) (q : Page) :
    (q.flush.add (String.ofList chunk)).flush.blocks =
      q.flush.blocks ++ (shown [chunk]).map fun text => ⟨text, q.inItem⟩ := by
  have hcurrent : (q.flush.add (String.ofList chunk)).current = String.ofList chunk :=
    String.empty_append
  rw [flush, hcurrent]
  have hempty := @spaced_eq_empty (String.ofList chunk)
  rw [String.toList_ofList] at hempty
  cases hseen : isSeen chunk with
  | false => simp [shown, hseen, hempty.2 hseen, add]
  | true =>
    have hne : ¬spaced (String.ofList chunk) = "" := by rw [hempty, hseen]; simp
    simp [shown, hseen, hne, add, flush]

/-- Chunks that are written become the blocks that are shown of them. -/
theorem blocks_foldl (chunks : List (List Char)) (q : Page) :
    ((chunks.map String.ofList).foldl (fun q chunk => q.flush.add chunk) q).flush.blocks =
      q.flush.blocks ++ (shown chunks).map fun text => ⟨text, q.inItem⟩ := by
  induction chunks generalizing q with
  | nil => simp [shown]
  | cons chunk chunks ih =>
    have hshown : shown (chunk :: chunks) = shown [chunk] ++ shown chunks := by
      rw [shown, ← List.singleton_append, List.filter_append, List.map_append, shown, shown]
    rw [List.map_cons, List.foldl_cons, ih, blocks_add, hshown, List.map_append, List.append_assoc]
    rfl

/-- A text that is written on an empty page is shown there. -/
theorem text_write (s : String) :
    (write {} s).text = "\n\n".intercalate (shown (paragraphs [] none s.toList)) := by
  have hblocks : (write {} s).flush.blocks = (shown (paragraphs [] none s.toList)).map fun text =>
    ⟨text, false⟩ := by
    unfold write
    split
    · rename_i hempty
      rw [String.isEmpty_iff.1 hempty]
      rfl
    · cases paragraphs [] none s.toList with
      | nil => rfl
      | cons first rest => exact blocks_foldl (first :: rest) {}
  rw [text_of_noItems, hblocks, List.map_map]
  · simp [Function.comp_def]
  · rw [hblocks]
    simp

end DocText.Page

open DocText

/-- Documentation without a title. -/
def Doc.Untitled (d : Doc) : Prop := d.title = none ∨ d.title = some ""

/-- Documentation that holds no markup. -/
def Doc.WithoutMarkup (d : Doc) : Prop := ∀ c ∈ d.content.toList, c ≠ '<' ∧ c ≠ '&' ∧ c ≠ '\r'

/-- Plain documentation is written as it stands, whether it is well-formed or not. -/
theorem Doc.WithoutMarkup.plainText {d : Doc} (h : d.WithoutMarkup) (htitle : d.Untitled)
    (skipCode : Bool) : (d.plainText skipCode).1 = (Page.write {} d.content).text := by
  have htitled : ∀ body, titled d.title body = body := by
    intro body
    rcases htitle with htitle | htitle <;> rw [htitle] <;> rfl
  cases hread : Xml.readText ("<doc>" ++ d.content ++ "</doc>") with
  | none =>
    rw [← htitled (Page.write {} d.content).text]
    unfold Doc.plainText
    simp only [hread]
    rfl
  | some root =>
    obtain rfl := Xml.readText_doc h hread
    have hreads : d.Reads (Xml.textNodes d.content) := ⟨_, _, hread, Xml.withoutMarks_leaf _ _⟩
    rw [hreads.plainText, htitled]
    unfold Xml.textNodes
    split
    · rename_i hempty
      rw [hempty]
      rfl
    · rfl

/-- The text of plain documentation is plain. -/
theorem plain_shown {d d' : Doc} (h : d.WithoutMarkup) {ps : List (List Char)}
    (hps : Cut d.content.toList ps) (hcontent : d'.content = "\n\n".intercalate (shown ps)) :
    d'.WithoutMarkup := by
  intro c hc
  rw [hcontent, String.toList_intercalate] at hc
  have hplain : c = '\n' ∨ c = ' ' ∨ c ∈ d.content.toList := by
    rcases mem_intercalate hc with hc | ⟨cs, hcs, hc⟩
    · exact Or.inl (by simpa using hc)
    · obtain ⟨s, hs, rfl⟩ := List.mem_map.1 hcs
      obtain ⟨p, hp, rfl, -⟩ := exists_of_mem_shown hs
      refine Or.inr ((mem_spaced hc).imp_right fun hmem => ?_)
      rw [String.toList_ofList] at hmem
      exact hps.subset p hp hmem.1
  rcases hplain with rfl | rfl | hmem
  · decide
  · decide
  · exact h c hmem

/-- What is shown, with empty lines between, is cut into what is shown. -/
theorem shown_of_cut_intercalate {ps qs : List (List Char)}
    (h : Cut ("\n\n".intercalate (shown ps)).toList qs) : shown qs = shown ps := by
  have hagain : ∃ rs, Cut ("\n\n".intercalate (shown ps)).toList rs ∧ shown rs = shown ps := by
    by_cases hnone : shown ps = []
    · rw [hnone]
      exact ⟨[[]], .whole (unbroken_of_notMem (by simp)), rfl⟩
    · refine ⟨(shown ps).map String.toList, ?_, shown_shown ps⟩
      rw [String.toList_intercalate]
      refine cut_intercalate (by simpa using hnone) fun l hl hmem => ?_
      obtain ⟨s, hs, rfl⟩ := List.mem_map.1 hl
      obtain ⟨p, -, rfl, -⟩ := exists_of_mem_shown hs
      rcases mem_spaced hmem with h | ⟨-, h⟩ <;> exact absurd h (by decide)
  obtain ⟨rs, hrs, hshown⟩ := hagain
  rw [← hshown]
  exact shown_congr ((stanzas_of_cut h).symm.trans (stanzas_of_cut hrs))

/-- Plain documentation without a title becomes the paragraphs of which anything is seen, with
single spaces between their words and an empty line between the paragraphs, however it is cut; and
these become themselves. -/
theorem Doc.plainText_paragraphs {d : Doc} (htitle : d.Untitled) (h : d.WithoutMarkup)
    (skipCode : Bool) : (∃ ps, Cut d.content.toList ps) ∧
    (∀ ps, Cut d.content.toList ps → (d.plainText skipCode).1 = "\n\n".intercalate (shown ps)) ∧
    ∀ d' : Doc, d'.Untitled → d'.content = (d.plainText skipCode).1 →
      ∀ skipCode', (d'.plainText skipCode').1 = (d.plainText skipCode).1 := by
  have hcut : ∀ {d : Doc}, d.Untitled → d.WithoutMarkup → ∀ skipCode ps, Cut d.content.toList ps →
      (d.plainText skipCode).1 = "\n\n".intercalate (shown ps) := by
    intro d htitle h skipCode ps hps
    rw [h.plainText htitle, Page.text_write, shown_congr (stanzas_of_cut hps)]
  obtain ⟨ps, hps⟩ := exists_cut d.content.toList
  refine ⟨⟨ps, hps⟩, hcut htitle h skipCode, fun d' htitle' hcontent skipCode' => ?_⟩
  rw [hcut htitle h skipCode ps hps] at hcontent ⊢
  obtain ⟨qs, hqs⟩ := exists_cut d'.content.toList
  rw [hcut htitle' (plain_shown h hps hcontent) skipCode' qs hqs]
  rw [hcontent] at hqs
  rw [shown_of_cut_intercalate hqs]

/-- Documentation of two paragraphs with spaces and newlines among their words. -/
def twoParagraphs : Doc := ⟨none, none, " One\n  line.\n \t\nTwo.\n\n\n", none⟩

theorem Doc.plainText_paragraphs_two :
    twoParagraphs.Untitled ∧ twoParagraphs.WithoutMarkup ∧ (twoParagraphs.plainText false).1 =
      "One line.\n\nTwo." ∧ ∀ d : Doc, d.Untitled → d.content = "One line.\n\nTwo." →
        (d.plainText true).1 = "One line.\n\nTwo." := by
  have hplain : twoParagraphs.WithoutMarkup := by
    have h : ∀ c ∈ twoParagraphs.content.toList, c ≠ '<' ∧ c ≠ '&' ∧ c ≠ '\r' :=
      List.all_iff_forall_prop.1 (by decide)
    exact h
  have htext : (twoParagraphs.plainText false).1 = "One line.\n\nTwo." := by decide +kernel
  obtain ⟨-, -, hstable⟩ := Doc.plainText_paragraphs (Or.inl rfl) hplain false
  refine ⟨Or.inl rfl, hplain, htext, fun d htitle hcontent => ?_⟩
  rw [htext] at hstable
  exact hstable d htitle hcontent true

end Wadl
