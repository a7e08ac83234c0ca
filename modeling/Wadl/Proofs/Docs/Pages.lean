import Wadl.Docs.Text
import Wadl.Proofs.Text.Pieces

/-!
# What is seen on a page

What is seen of a text is all but its white space (`Text.ink`). A page holds what is seen of all
that is written on it: a text adds its own (`Page.ink_write`), whatever becomes of its spaces and of
its paragraphs, and the text of a page is all that is seen on it (`Page.ink_text`).
-/

namespace Wadl

namespace Text

/-! ## What is seen -/

/-- What is seen of a text: all but its white space. -/
def ink (cs : List Char) : List Char := cs.filter fun c => !isBlank c

@[simp] theorem ink_nil : ink [] = [] := rfl

/-- Ink is collected piece by piece; the lemmas below carry it through each step of writing a
page. -/
@[simp] theorem ink_append (cs ds : List Char) : ink (cs ++ ds) = ink cs ++ ink ds :=
  List.filter_append ..

theorem ink_cons (c : Char) (cs : List Char) : ink (c :: cs) = ink [c] ++ ink cs :=
  ink_append [c] cs

/-- White space leaves no ink. -/
theorem ink_cons_of_blank {c : Char} (h : isBlank c = true) (cs : List Char) :
    ink (c :: cs) = ink cs := by
  simp [ink, h]

theorem ink_eq_nil {cs : List Char} (h : ∀ c ∈ cs, isBlank c = true) : ink cs = [] := by
  rw [ink, List.filter_eq_nil_iff]
  exact fun c hc => by simp [h c hc]

/-- Ink may be taken before or after pieces are put together. -/
theorem ink_flatten (xs : List (List Char)) : (xs.map ink).flatten = ink xs.flatten :=
  List.filter_flatten.symm

@[simp] theorem ink_reverse (cs : List Char) : ink cs.reverse = (ink cs).reverse :=
  List.filter_reverse ..

/-- What is seen of joined texts is what is seen of each, if the separator is blank. -/
theorem ink_intercalate {sep : List Char} (h : ∀ c ∈ sep, isBlank c = true) :
    ∀ xs : List (List Char), ink (sep.intercalate xs) = xs.flatMap ink
  | [] => rfl
  | [x] => by simp
  | x :: y :: xs => by
    rw [List.intercalate_cons_cons, ink_append, ink_append, ink_eq_nil h, List.append_nil,
      ink_intercalate h (y :: xs)]
    rfl

/-- The pieces of a text are all of it but the cuts. -/
theorem flatten_pieces (p : Char → Bool) :
    ∀ cs : List Char, (pieces p cs).flatten = cs.filter fun c => !p c
  | [] => rfl
  | c :: cs => by
    obtain ⟨w, ws, hws, hcons⟩ := pieces_cons p c cs
    have ih := flatten_pieces p cs
    rw [hws, List.flatten_cons] at ih
    rw [hcons]
    by_cases hc : p c = true <;> simp [hc, ih]

/-- Cutting into runs drops the separators and nothing else. -/
theorem flatten_runs (p : Char → Bool) (cs : List Char) :
    (runs p cs).flatten = cs.filter fun c => !p c := by
  rw [runs, ← flatten_pieces]
  induction pieces p cs with
  | nil => rfl
  | cons w ws ih =>
    by_cases hw : w = [] <;> simp [hw, ih]

/-- Leaving out leading white space keeps the ink. -/
theorem ink_dropWhile {p : Char → Bool} (h : ∀ c, p c = true → isBlank c = true) (cs : List Char) :
    ink (cs.dropWhile p) = ink cs := by
  induction cs with
  | nil => rfl
  | cons c cs ih =>
    rw [List.dropWhile_cons]
    split
    · rename_i hc
      rw [ih, ink_cons_of_blank (h c hc)]
    · rfl

/-- Trimming white space keeps the ink. -/
theorem ink_trimList {p : Char → Bool} (h : ∀ c, p c = true → isBlank c = true) (cs : List Char) :
    ink (trimList p cs) = ink cs := by
  rw [trimList, dropEndWhile, ink_reverse, ink_dropWhile h, ink_reverse,
    List.reverse_reverse, ink_dropWhile h]

theorem isBlank_of_isLineEnd {c : Char} (h : isLineEnd c = true) : isBlank c = true := by
  simp only [isLineEnd, isBlank, Bool.or_eq_true, Bool.and_eq_true,
    decide_eq_true_eq, beq_iff_eq] at h ⊢
  omega

/-- The lines of a text are all that is seen of it. -/
theorem ink_lineList (cs : List Char) : ink (lineList cs).flatten = ink cs := by
  fun_induction lineList cs with
  | case1 => rfl
  | case2 cs ih =>
    rw [List.flatten_cons, List.nil_append, ih, ink_cons_of_blank (by decide),
      ink_cons_of_blank (by decide)]
  | case3 c cs hpair hend ih =>
    rw [List.flatten_cons, List.nil_append, ih, ink_cons_of_blank (isBlank_of_isLineEnd hend)]
  | case4 c cs hpair hend hnil ih =>
    rw [hnil, List.flatten_nil] at ih
    rw [List.flatten_singleton, ink_cons c cs, ← ih, ← ink_append, List.append_nil]
  | case5 c cs hpair hend l ls hcons ih =>
    rw [hcons] at ih
    rw [ink_cons c cs, ← ih, List.flatten_cons, List.cons_append, ink_cons, List.flatten_cons]

end Text

open Text

/-- One space for each run of white space keeps the ink. -/
theorem ink_spaced (s : String) : ink (DocText.spaced s).toList = ink s.toList := by
  have hruns : (runs isBlank s.toList).flatMap ink = ink s.toList := by
    rw [List.flatMap, ink_flatten, flatten_runs, ink, List.filter_filter]
    simp only [Bool.and_self, ink]
  rw [DocText.spaced, String.toList_intercalate, ink_intercalate (List.all_eq_true.1 (by decide)),
    wordsOf, List.map_map, ← hruns]
  simp

theorem ink_trimmed (s : String) : ink (trimmed s).toList = ink s.toList := by
  rw [trimmed, String.toList_ofList, ink_trimList fun _ => id]

/-! ## Pages -/

namespace DocText

/-- What is read since a line end is white space. -/
structure Gap.Blank (gap : Gap) : Prop where
  all : ∀ c ∈ gap.all, isBlank c = true
  rest : ∀ c ∈ gap.rest, isBlank c = true

namespace Gap

theorem blank_newline : Blank ⟨['\n'], false, []⟩ :=
  ⟨List.forall_mem_singleton.2 (by decide), List.forall_mem_nil _⟩

theorem Blank.newline {gap : Gap} (h : gap.Blank) : Blank ⟨'\n' :: gap.all, true, []⟩ :=
  ⟨List.forall_mem_cons.2 ⟨by decide, h.all⟩, List.forall_mem_nil _⟩

/-- A gap stays blank when another blank stands before it. -/
theorem Blank.cons {gap : Gap} (h : gap.Blank) {c : Char} (hc : isBlank c = true) :
    Blank ⟨c :: gap.all, gap.breaks, c :: gap.rest⟩ :=
  ⟨List.forall_mem_cons.2 ⟨hc, h.all⟩, List.forall_mem_cons.2 ⟨hc, h.rest⟩⟩

theorem Blank.some {gap : Gap} (h : gap.Blank) : ∀ g ∈ some gap, g.Blank := by
  rintro g hg
  rwa [← Option.mem_some.1 hg]

end Gap

/-- The paragraphs of a text are all that is seen of it. -/
theorem ink_paragraphs (chunk : List Char) (gap? : Option Gap) (cs : List Char)
    (hgap : ∀ gap ∈ gap?, gap.Blank) :
    ink (paragraphs chunk gap? cs).flatten = ink chunk.reverse ++ ink cs := by
  have hbreak : isBlank '\n' = true := by decide
  fun_induction paragraphs chunk gap? cs with
  | case1 chunk => simp
  | case2 chunk gap hbreaks => simp [ink_eq_nil (hgap gap rfl).rest]
  | case3 chunk gap hbreaks => simp [ink_eq_nil (hgap gap rfl).all]
  | case4 chunk cs ih => rw [ih Gap.blank_newline.some, ink_cons_of_blank hbreak]
  | case5 chunk c cs hc ih =>
    rw [ih (by simp), ink_cons c cs]
    simp
  | case6 chunk gap cs ih => rw [ih (hgap gap rfl).newline.some, ink_cons_of_blank hbreak]
  | case7 chunk gap c cs hc hblank ih =>
    rw [ih ((hgap gap rfl).cons hblank).some, ink_cons_of_blank hblank]
  | case8 chunk gap c cs hc hblank hbreaks ih =>
    rw [List.flatten_cons, ink_append, ih (by simp), ink_cons c cs]
    simp [ink_eq_nil (hgap gap rfl).rest]
  | case9 chunk gap c cs hc hblank hbreaks ih =>
    rw [ih (by simp), ink_cons c cs]
    simp [ink_eq_nil (hgap gap rfl).all]

/-- What is written for a block after another one. -/
def Block.after (b before : Block) : String :=
  (if b.isItem && before.isItem then "\n" else "\n\n") ++ b.text

/-- The break before a block holds no ink. -/
theorem Block.ink_after (b before : Block) : ink (b.after before).toList = ink b.text.toList := by
  have hsep : ink (if b.isItem && before.isItem then "\n" else "\n\n").toList = [] := by
    split <;> decide
  rw [after, String.toList_append, ink_append, hsep, List.nil_append]

namespace Page

variable (p : Page) (s : String)

/-- What is seen of a page. -/
def ink (p : Page) : List Char :=
  p.blocks.flatMap (fun b => Text.ink b.text.toList) ++ Text.ink p.current.toList

/-- Closing the current block keeps the ink of the page. -/
@[simp] theorem ink_flush : p.flush.ink = p.ink := by
  unfold flush ink
  simp only
  split
  · rename_i hempty
    have hnone := ink_spaced p.current
    rw [String.isEmpty_iff.1 hempty] at hnone
    simp [← hnone]
  · simp [ink_spaced]

/-- The ink of a page is that of its blocks, the open one included. -/
theorem ink_eq_blocks : p.ink = p.flush.blocks.flatMap fun b => Text.ink b.text.toList := by
  rw [← ink_flush, ink]
  exact List.append_nil _

/-- What is added to a page is added to its ink. -/
@[simp] theorem ink_add : (p.add s).ink = p.ink ++ Text.ink s.toList := by
  simp [add, ink, List.append_assoc]

@[simp] theorem ink_setItem (inItem : Bool) : (p.setItem inItem).ink = p.ink := rfl

/-- A text that is written is seen on the page, with its paragraphs one after another. -/
@[simp] theorem ink_write : (p.write s).ink = p.ink ++ Text.ink s.toList := by
  have hchunks : ∀ (chunks : List String) (q : Page),
      (chunks.foldl (fun q chunk => q.flush.add chunk) q).ink =
        q.ink ++ Text.ink (chunks.flatMap String.toList) := by
    intro chunks
    induction chunks with
    | nil => simp
    | cons chunk chunks ih => simp [ih, List.append_assoc]
  have hall := ink_paragraphs [] none s.toList (by simp)
  unfold write
  split
  · rename_i hempty
    simp [String.isEmpty_iff.1 hempty]
  · cases hparagraphs : paragraphs [] none s.toList with
    | nil =>
      rw [hparagraphs] at hall
      simpa using hall
    | cons first rest =>
      rw [hparagraphs, List.flatten_cons, ink_append, List.reverse_nil, ink_nil,
        List.nil_append] at hall
      have hrest : (rest.map String.ofList).flatMap String.toList = rest.flatten := by
        rw [List.flatMap_map]
        simp [List.flatMap_id']
      simp only [List.map_cons, hchunks, ink_add, String.toList_ofList, hrest,
        List.append_assoc, hall]

/-- Indenting lines keeps their ink. -/
theorem ink_indented (s : String) :
    Text.ink ("\n".intercalate ((linesOf s).map ("    " ++ ·))).toList = Text.ink s.toList := by
  have hindent : Text.ink "    ".toList = [] := by decide
  rw [String.toList_intercalate, ink_intercalate (List.all_eq_true.1 (by decide)),
    ← ink_lineList s.toList, ← ink_flatten, linesOf]
  simp only [List.map_map, List.flatMap, Function.comp_def, String.toList_append,
    String.toList_ofList, ink_append, hindent, List.nil_append]

/-- A preformatted text is seen on the page. -/
theorem ink_writePre : (p.flush.writePre s).ink = p.ink ++ Text.ink s.toList := by
  let body := String.ofList (trimList (· = '\n') s.toList)
  have hbody : Text.ink body.toList = Text.ink s.toList := by
    rw [String.toList_ofList]
    exact ink_trimList (fun c hc => by rw [of_decide_eq_true hc]; decide) s.toList
  unfold writePre
  simp only
  split
  · rename_i hempty
    have hnone := ink_trimmed body
    rw [String.isEmpty_iff.1 hempty, hbody] at hnone
    simp [← hnone]
  · rw [ink_eq_blocks p, ← hbody, ← ink_indented body, ink]
    simp [body, flush]

/-- A link is seen at least as its label. -/
theorem ink_writeLink (href : Option String) :
    (p.ink ++ Text.ink s.toList).Sublist (p.writeLink s href).ink := by
  rw [← ink_write]
  unfold writeLink
  simp only
  split
  · split
    · exact List.Sublist.refl _
    · rw [ink_write (p.write s)]
      exact List.sublist_append_left ..
  · exact List.Sublist.refl _

/-- The text of a page is its first block, and each other one after the one before it. -/
theorem text_cons {first : Block} {more : List Block} (h : p.flush.blocks = first :: more) :
    p.text = first.text ++
      String.join ((more.zip (first :: more)).map fun pair => pair.1.after pair.2) := by
  unfold text
  rw [h]
  rfl

theorem text_nil (h : p.flush.blocks = []) : p.text = "" := by
  unfold text
  rw [h]

/-- The text of a page is all that is seen on it. -/
theorem ink_text : Text.ink p.text.toList = p.ink := by
  rw [ink_eq_blocks]
  cases hblocks : p.flush.blocks with
  | nil => rw [text_nil p hblocks, String.toList_empty, ink_nil, List.flatMap_nil]
  | cons first more =>
    have hmore : Text.ink
        (String.join ((more.zip (first :: more)).map fun pair => pair.1.after pair.2)).toList =
        (((more.zip (first :: more)).map Prod.fst).flatMap fun b => Text.ink b.text.toList) := by
      rw [String.toList_join, List.flatMap_map, List.flatMap, ← ink_flatten,
        List.map_map, List.flatMap_map]
      exact congrArg List.flatten (List.map_congr_left fun pair _ => Block.ink_after pair.1 pair.2)
    rw [List.map_fst_zip (Nat.le_succ more.length)] at hmore
    rw [text_cons p hblocks, String.toList_append, ink_append, hmore, List.flatMap_cons]

end Page

/-- A preformatted element is written as it stands, after what is on the page. -/
theorem writeNode_pre {tag : Xml.Tag} {content : List Xml.Node} {p : Page}
    (h : tag.name.label = "pre") :
    writeNode false p (.element tag content) = p.flush.writePre (Xml.allTextList content) := by
  simp [writeNode, h]

end DocText

end Wadl
