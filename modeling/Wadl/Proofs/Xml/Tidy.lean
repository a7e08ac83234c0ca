import Wadl.Proofs.Text.Pieces
import Wadl.Proofs.Xml.Content

/-!
# Markup with unified line ends

Text is written with its carriage returns, which are read as line ends. So what is written for
markup is read as what is written for tidy markup (`unifyLineEnds_joined`): its texts are joined
where they follow each other, and hold no carriage returns.

`Node.rename` gives the elements of a piece other names, at any depth. It changes nothing just if
the names of the elements stay the same (`renameList_eq_self`), and it keeps markup tidy
(`Tidy.rename`).
-/

namespace Wadl.Xml

/-! ## Texts -/

/-- A text with unified line ends. -/
def unified (s : String) : String := String.ofList (Text.unifyLineEnds s.toList)

theorem toList_unified (s : String) : (unified s).toList = Text.unifyLineEnds s.toList :=
  String.toList_ofList

/-- Unifying line ends leaves a text alone just if it has no carriage return. -/
theorem unified_eq_self {s : String} : unified s = s ↔ '\r' ∉ s.toList := by
  rw [← Text.unifyLineEnds_eq_self, ← toList_unified, String.toList_inj]

/-- No carriage return is left. -/
theorem return_notMem_unified (s : String) : '\r' ∉ (unified s).toList := by
  rw [toList_unified]
  exact fun h => (Text.mem_unifyLineEnds h).1 rfl

theorem IsText.unified {s : String} (h : IsText s) : IsText (unified s) := by
  intro c hc
  rw [toList_unified] at hc
  rcases (Text.mem_unifyLineEnds hc).2 with rfl | hc
  · decide
  · exact h c hc

theorem unified_eq_empty {s : String} : unified s = "" ↔ s = "" := by
  constructor
  · intro h
    have hlist : Text.unifyLineEnds s.toList = [] := by
      rw [← toList_unified, h]
      rfl
    rw [← String.toList_inj]
    unfold Text.unifyLineEnds at hlist
    split at hlist
    · rename_i heq
      exact heq
    all_goals cases hlist
  · rintro rfl
    rfl

/-- What is written for a character begins with a line feed just if the character is one. -/
theorem head_textChar {c : Char} (h : c ≠ '\n') :
    ∀ rest more, textChar c ++ rest ≠ '\n' :: more := by
  intro rest more heq
  rcases textChar_cases c with ⟨hself, -⟩ | ⟨hescape, -⟩
  · rw [hself] at heq
    exact h (List.cons.inj heq).1
  · have hhead : (textChar c).head? = some '&' := by
      have hall : ∀ e ∈ ["&amp;".toList, "&lt;".toList, "&gt;".toList], e.head? = some '&' := by
        decide
      exact hall _ hescape
    have hfirst := congrArg List.head? heq
    rw [List.head?_append, hhead] at hfirst
    exact absurd (Option.some.inj hfirst) (by decide)

/-- Escaping never adds a carriage return. -/
theorem return_notMem_textChar {c : Char} (h : c ≠ '\r') : '\r' ∉ textChar c := by
  rcases textChar_cases c with ⟨hself, -⟩ | ⟨hescape, -⟩
  · rw [hself, List.mem_singleton]
    exact Ne.symm h
  · exact fun hmem => (mem_escape hescape hmem).2.2.1 rfl

/-- Escaping leaves line ends alone. -/
theorem unified_escapeText (s : String) : unified (escapeText s) = escapeText (unified s) := by
  have hchars : ∀ cs : List Char,
      Text.unifyLineEnds (cs.flatMap textChar) = (Text.unifyLineEnds cs).flatMap textChar := by
    intro cs
    induction cs using Text.unifyLineEnds.induct with
    | case1 => rfl
    | case2 cs ih =>
      have hpair : ('\r' :: '\n' :: cs).flatMap textChar = '\r' :: '\n' :: cs.flatMap textChar :=
        rfl
      rw [hpair, Text.unifyLineEnds_pair, Text.unifyLineEnds_pair, ih]
      rfl
    | case3 cs hpair ih =>
      have hhead : ∀ rest, cs.flatMap textChar ≠ '\n' :: rest := by
        intro rest heq
        cases cs with
        | nil => cases heq
        | cons c cs => exact head_textChar (fun hc => hpair cs (by rw [hc])) _ _ heq
      have hreturn : ('\r' :: cs).flatMap textChar = '\r' :: cs.flatMap textChar := rfl
      rw [hreturn, Text.unifyLineEnds_return hhead, Text.unifyLineEnds_return hpair, ih]
      rfl
    | case4 c cs hpair hsingle ih =>
      rw [Text.unifyLineEnds_other hsingle, List.flatMap_cons, List.flatMap_cons, ← ih,
        Text.unifyLineEnds_append_of_notMem (return_notMem_textChar hsingle)]
  rw [← String.toList_inj, toList_unified, toList_escapeText, toList_escapeText,
    toList_unified, hchars]

/-! ## Tidy markup -/

mutual

/-- An element with tidy content. -/
def Node.tidy : Node → Node
  | .element tag content => .element tag (tidyList "" content)
  | n => n

/-- Pieces after a text, which is joined with those that follow it, with unified line ends. -/
def tidyList (before : String) : List Node → List Node
  | [] => textNodes (unified before)
  | n :: rest =>
    match n with
    | .text s => tidyList (before ++ s) rest
    | .comment _ => tidyList before rest
    | .instruction _ => tidyList before rest
    | .element .. => textNodes (unified before) ++ n.tidy :: tidyList "" rest

end

/-- Pieces of text in a row are put together. -/
theorem tidyList_textNodes (before s : String) (rest : List Node) :
    tidyList before (textNodes s ++ rest) = tidyList (before ++ s) rest := by
  unfold textNodes
  split
  · rename_i hempty
    rw [hempty, String.append_empty]
    rfl
  · rw [List.singleton_append, tidyList]

/-- Markup in which texts stand only between elements, and hold no carriage returns. -/
inductive Tidy : List Node → Prop where
  | text {s : String} (hs : IsText s) (hreturn : '\r' ∉ s.toList) : Tidy (textNodes s)
  | element {s : String} {tag : Tag} {inside rest : List Node} (hs : IsText s)
      (hreturn : '\r' ∉ s.toList) (hinside : Tidy inside) (hrest : Tidy rest) :
        Tidy (textNodes s ++ .element tag inside :: rest)

variable {T : Tag → Prop}

/-- A text that can be written is split into pieces that all can. -/
theorem all_textNodes {M : Prop} {s : String} (hs : IsText s) :
    ∀ n ∈ textNodes s, n.All T IsPiece M := by
  unfold textNodes
  split
  · exact List.forall_mem_nil _
  · rename_i hfilled
    exact List.forall_mem_singleton.2 (.text ⟨hfilled, hs⟩)

/-- What is made tidy is tidy, and has the same tags. -/
theorem tidy_tidyList {before : String} (hbefore : IsText before) :
    ∀ {content : List Node}, (∀ n ∈ content, n.All T IsPiece False) →
      Tidy (tidyList before content) ∧ ∀ n ∈ tidyList before content, n.All T IsPiece False
  | [], _ => by
    rw [tidyList]
    exact ⟨.text hbefore.unified (return_notMem_unified before), all_textNodes hbefore.unified⟩
  | .text s :: rest, h => by
    obtain ⟨hn, hrest⟩ := List.forall_mem_cons.1 h
    rw [tidyList]
    cases hn with
    | text hs => exact tidy_tidyList (hbefore.append hs.2) hrest
  | .element tag inside :: rest, h => by
    obtain ⟨hn, hrest⟩ := List.forall_mem_cons.1 h
    have hempty : IsText "" := by simp [IsText]
    obtain ⟨hrestTidy, hrestAll⟩ := tidy_tidyList hempty hrest
    cases hn with
    | element htag hinside =>
      obtain ⟨hinsideTidy, hinsideAll⟩ := tidy_tidyList hempty hinside
      rw [tidyList, Node.tidy]
      refine ⟨.element hbefore.unified (return_notMem_unified before) hinsideTidy hrestTidy, ?_⟩
      exact List.forall_mem_append.2
        ⟨all_textNodes hbefore.unified, List.forall_mem_cons.2 ⟨.element htag hinsideAll, hrestAll⟩⟩
  | .comment _ :: _, h => by
    cases (List.forall_mem_cons.1 h).1 with
    | comment hnone => exact hnone.elim
  | .instruction _ :: _, h => by
    cases (List.forall_mem_cons.1 h).1 with
    | instruction hnone => exact hnone.elim

/-- Tidy content is left as it is. -/
theorem Tidy.tidyList_eq {content : List Node} (h : Tidy content) :
    tidyList "" content = content := by
  induction h with
  | text hs hreturn =>
    rename_i s
    have htext := tidyList_textNodes "" s []
    rwa [List.append_nil, String.empty_append, tidyList, unified_eq_self.2 hreturn] at htext
  | element hs hreturn hinside hrest ihInside ihRest =>
    rw [tidyList_textNodes, String.empty_append, tidyList, Node.tidy, ihInside, ihRest,
      unified_eq_self.2 hreturn]

/-- Only markup without anything in it is made tidy to nothing. -/
theorem tidyList_eq_nil {before : String} :
    ∀ {content : List Node}, (∀ n ∈ content, n.All T IsPiece False) →
      (tidyList before content = [] ↔ before = "" ∧ content = [])
  | [], _ => by simp [tidyList, textNodes, unified_eq_empty]
  | .text s :: rest, h => by
    obtain ⟨hn, hrest⟩ := List.forall_mem_cons.1 h
    cases hn with
    | text hs =>
      rw [tidyList, tidyList_eq_nil hrest]
      simp [hs.1]
  | .element tag inside :: rest, h => by simp [tidyList]
  | .comment _ :: _, h => by
    cases (List.forall_mem_cons.1 h).1 with
    | comment hnone => exact hnone.elim
  | .instruction _ :: _, h => by
    cases (List.forall_mem_cons.1 h).1 with
    | instruction hnone => exact hnone.elim

/-- Tidy markup holds no comments and instructions, and no texts that follow each other. -/
theorem Tidy.withoutMarks {content : List Node} (h : Tidy content) :
    withoutMarksList content = content := by
  have htext : ∀ {s : String} {rest : List Node}, Ready rest → withoutMarksList rest = rest →
      withoutMarksList (textNodes s ++ rest) = textNodes s ++ rest := by
    intro s rest hready hrest
    unfold textNodes
    split
    · exact hrest
    · rw [List.singleton_append, withoutMarksList, hrest]
      unfold joinText
      split
      · exact absurd rfl (hready _ _)
      · rfl
  induction h with
  | text hs hreturn =>
    rename_i s
    have hend := htext (s := s) ready_nil (by simp [withoutMarksList])
    rwa [List.append_nil] at hend
  | element hs hreturn hinside hrest ihInside ihRest =>
    refine htext ready_element ?_
    rw [withoutMarksList, Node.withoutMarks, ihInside, ihRest]

/-- Text meets no namespaces. -/
theorem meetAllList_textNodes (ps : Prefixes) (s : String) (rest : List Node) :
    meetAllList ps (textNodes s ++ rest) = meetAllList ps rest := by
  unfold textNodes
  split
  · rfl
  · rfl

/-- Tidy markup has the same names. -/
theorem meetAllList_tidyList {before : String} :
    ∀ (content : List Node) (ps : Prefixes),
      meetAllList ps (tidyList before content) = meetAllList ps content
  | [], ps => by
    have htext := meetAllList_textNodes ps (unified before) []
    rwa [List.append_nil] at htext
  | .text s :: rest, ps => by
    rw [tidyList]
    exact meetAllList_tidyList rest ps
  | .comment _ :: rest, ps => by
    rw [tidyList]
    exact meetAllList_tidyList rest ps
  | .instruction _ :: rest, ps => by
    rw [tidyList]
    exact meetAllList_tidyList rest ps
  | .element tag inside :: rest, ps => by
    rw [tidyList, Node.tidy, meetAllList_textNodes, meetAllList, meetAllList,
      Node.meetAll, Node.meetAll, meetAllList_tidyList inside, meetAllList_tidyList rest]

/-! ## What is written -/

/-- What is written for some pieces, one after the other. -/
def joined (write : Node → String) (content : List Node) : String := String.join (content.map write)

section Joined

variable {write : Node → String}

theorem joined_cons (n : Node) (rest : List Node) :
    joined write (n :: rest) = write n ++ joined write rest := by
  simp [joined]

theorem joined_append (front back : List Node) :
    joined write (front ++ back) = joined write front ++ joined write back := by
  simp [joined]

/-- A text that was split is written as in one piece. -/
theorem joined_textNodes (htext : ∀ s, write (.text s) = escapeText s) (s : String) :
    joined write (textNodes s) = escapeText s := by
  unfold textNodes
  split
  · rename_i hempty
    rw [hempty, escapeText_empty]
    rfl
  · rw [joined_cons, htext]
    simp [joined]

/-- If what is written for each element is read as what is written for the tidy one, so is what is
written for some pieces. -/
theorem unifyLineEnds_joined (htext : ∀ s, write (.text s) = escapeText s) (before : String) :
    ∀ {content : List Node}, (∀ n ∈ content, n.All T IsPiece False) →
      (∀ tag inside, .element tag inside ∈ content → ∀ rest,
        (write (.element tag inside)).toList.head? = some '<' ∧
        Text.unifyLineEnds ((write (.element tag inside)).toList ++ rest) =
          (write (Node.element tag inside).tidy).toList ++ Text.unifyLineEnds rest) →
      unified (escapeText before ++ joined write content) = joined write (tidyList before content)
  | [], _, _ => by
    have hnil : joined write [] = "" := rfl
    rw [hnil, String.append_empty, unified_escapeText, tidyList, joined_textNodes htext]
  | .text s :: rest, h, helements => by
    obtain ⟨hn, hrest⟩ := List.forall_mem_cons.1 h
    rw [tidyList, joined_cons, htext, ← String.append_assoc, ← escapeText_append]
    exact unifyLineEnds_joined htext (before ++ s) hrest
      fun tag inside hmem => helements tag inside (List.mem_cons_of_mem _ hmem)
  | .element tag inside :: rest, h, helements => by
    obtain ⟨hn, hrest⟩ := List.forall_mem_cons.1 h
    have ih := unifyLineEnds_joined htext "" hrest
      fun tag inside hmem => helements tag inside (List.mem_cons_of_mem _ hmem)
    obtain ⟨hhead, hunify⟩ := helements tag inside List.mem_cons_self (joined write rest).toList
    have hnext : ((write (.element tag inside)).toList ++ (joined write rest).toList).head? ≠
        some '\n' := by
      rw [List.head?_append, hhead]
      exact fun heq => absurd (Option.some.inj heq) (by decide)
    rw [escapeText_empty, String.empty_append] at ih
    rw [tidyList, joined_append, joined_textNodes htext, joined_cons, joined_cons, ← ih]
    rw [← String.toList_inj, toList_unified, String.toList_append, String.toList_append,
      Text.unifyLineEnds_append hnext, hunify, ← unified_escapeText, String.toList_append,
      String.toList_append, toList_unified, toList_unified]
  | .comment _ :: _, h, _ => by
    cases (List.forall_mem_cons.1 h).1 with
    | comment hnone => exact hnone.elim
  | .instruction _ :: _, h, _ => by
    cases (List.forall_mem_cons.1 h).1 with
    | instruction hnone => exact hnone.elim

end Joined

/-! ## Elements with other names -/

section Renaming

mutual

/-- A piece with other names for its elements. -/
def Node.rename (f : Name → Name) : Node → Node
  | .element tag content => .element ⟨f tag.name, tag.attributes⟩ (renameList f content)
  | n => n

/-- Pieces with other names for their elements. -/
def renameList (f : Name → Name) : List Node → List Node
  | [] => []
  | n :: rest => n.rename f :: renameList f rest

end

mutual

/-- The names of the elements in a piece. -/
def Node.names : Node → List Name
  | .element tag content => tag.name :: namesList content
  | _ => []

/-- The names of the elements in some pieces. -/
def namesList : List Node → List Name
  | [] => []
  | n :: rest => n.names ++ namesList rest

end

variable {f g : Name → Name}

theorem renameList_eq_map (f : Name → Name) (content : List Node) :
    renameList f content = content.map (·.rename f) := by
  induction content with
  | nil => rfl
  | cons n rest ih => rw [renameList, ih, List.map_cons]

theorem renameList_textNodes (f : Name → Name) (s : String) :
    renameList f (textNodes s) = textNodes s := by
  unfold textNodes
  split <;> rfl

mutual

/-- Renaming twice is renaming once by both. -/
theorem rename_rename : ∀ n : Node, (n.rename g).rename f = n.rename (f ∘ g)
  | .element tag content => by
    rw [Node.rename, Node.rename, Node.rename, renameList_renameList content]
    rfl
  | .text _ => rfl
  | .comment _ => rfl
  | .instruction _ => rfl

/-- Names that are replaced twice. -/
theorem renameList_renameList :
    ∀ content : List Node, renameList f (renameList g content) = renameList (f ∘ g) content
  | [] => rfl
  | n :: rest => by
      rw [renameList, renameList, renameList, rename_rename n, renameList_renameList rest]

end

mutual

/-- Renaming leaves a node alone just if it leaves each of its names alone. -/
theorem rename_eq_self : ∀ {n : Node}, n.rename f = n ↔ ∀ m ∈ n.names, f m = m
  | .element ⟨name, attributes⟩ content => by
    rw [Node.rename, Node.names, List.forall_mem_cons, Node.element.injEq,
      renameList_eq_self, Tag.mk.injEq]
    simp
  | .text _ => by simp [Node.rename, Node.names]
  | .comment _ => by simp [Node.rename, Node.names]
  | .instruction _ => by simp [Node.rename, Node.names]

/-- Pieces stay as they are just if the names of their elements do. -/
theorem renameList_eq_self :
    ∀ {content : List Node}, renameList f content = content ↔ ∀ m ∈ namesList content, f m = m
  | [] => by simp [renameList, namesList]
  | n :: rest => by
    rw [renameList, namesList, List.forall_mem_append, List.cons.injEq, rename_eq_self,
      renameList_eq_self]

end

mutual

/-- The names of a renamed node are the renamed names. -/
theorem names_rename : ∀ n : Node, (n.rename f).names = n.names.map f
  | .element tag content => by
    rw [Node.rename, Node.names, Node.names, List.map_cons, namesList_renameList content]
  | .text _ => rfl
  | .comment _ => rfl
  | .instruction _ => rfl

theorem namesList_renameList :
    ∀ content : List Node, namesList (renameList f content) = (namesList content).map f
  | [] => rfl
  | n :: rest => by
    rw [renameList, namesList, namesList, List.map_append, names_rename n,
      namesList_renameList rest]

end

/-- A piece with other names satisfies the same conditions, if its tags do. -/
theorem Node.All.rename {T T' : Tag → Prop} {V : String → Prop} {M : Prop}
    (hf : ∀ tag, T tag → T' ⟨f tag.name, tag.attributes⟩) {n : Node} (h : n.All T V M) :
    (n.rename f).All T' V M := by
  induction h with
  | element htag _ ih =>
    rw [Node.rename]
    refine .element (hf _ htag) ?_
    rw [renameList_eq_map, List.forall_mem_map]
    exact ih
  | text hs => exact .text hs
  | comment h => exact .comment h
  | instruction h => exact .instruction h

/-! ## Tidy markup with other names -/

/-- Renaming keeps content tidy. -/
theorem Tidy.rename {content : List Node} (h : Tidy content) : Tidy (renameList f content) := by
  induction h with
  | text hs hreturn =>
    rw [renameList_textNodes]
    exact .text hs hreturn
  | element hs hreturn hinside hrest ihInside ihRest =>
    rw [renameList_eq_map, List.map_append, ← renameList_eq_map, ← renameList_eq_map,
      renameList_textNodes, renameList, Node.rename]
    exact .element hs hreturn ihInside ihRest

theorem namesList_textNodes (s : String) (rest : List Node) :
    namesList (textNodes s ++ rest) = namesList rest := by
  unfold textNodes
  split <;> rfl

/-- The tidy markup has elements of the same names. -/
theorem namesList_tidyList {before : String} :
    ∀ content : List Node, namesList (tidyList before content) = namesList content
  | [] => by
    have h := namesList_textNodes (unified before) []
    rwa [List.append_nil] at h
  | .text s :: rest => by
    rw [tidyList]
    exact namesList_tidyList rest
  | .comment _ :: rest => by
    rw [tidyList]
    exact namesList_tidyList rest
  | .instruction _ :: rest => by
    rw [tidyList]
    exact namesList_tidyList rest
  | .element tag inside :: rest => by
    rw [tidyList, Node.tidy, namesList_textNodes, namesList, namesList, Node.names, Node.names,
      namesList_tidyList inside, namesList_tidyList rest]

end Renaming

end Wadl.Xml
