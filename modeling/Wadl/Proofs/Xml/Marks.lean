import Wadl.Proofs.Xml.Tidy

/-!
# Comments and instructions

`Node.markCount` counts the comments and processing instructions in a piece, at any depth. What is
written for an element is the same without them just if there are none (`written_withoutMarks_iff`):
each of them is written with a `<`, of which text in between has none (`openings_withoutMarksList`).
Texts that they separate are written as the one text that they become.
-/

namespace Wadl.Xml

mutual

/-- The number of comments and instructions in a piece. -/
def Node.markCount : Node → Nat
  | .element _ content => markCountList content
  | .text _ => 0
  | .comment _ => 1
  | .instruction _ => 1

/-- The number of comments and instructions in some pieces. -/
def markCountList : List Node → Nat
  | [] => 0
  | n :: rest => n.markCount + markCountList rest

end

/-! ## Text that becomes one -/

section Join

variable {ps : Prefixes} {s : String} {content rest : List Node}

/-- Comments and instructions go, and the texts around them are put together; the lemmas below say
so for each kind of node. -/
theorem withoutMarksList_text :
    withoutMarksList (.text s :: rest) = joinText s (withoutMarksList rest) := by
  rw [withoutMarksList]

theorem withoutMarksList_comment :
    withoutMarksList (.comment s :: rest) = withoutMarksList rest := by
  rw [withoutMarksList]

theorem withoutMarksList_instruction :
    withoutMarksList (.instruction s :: rest) = withoutMarksList rest := by
  rw [withoutMarksList]

theorem withoutMarksList_element {tag : Tag} {inside : List Node} :
    withoutMarksList (.element tag inside :: rest) =
      .element tag (withoutMarksList inside) :: withoutMarksList rest := by
  rw [withoutMarksList, Node.withoutMarks]

theorem joinText_ne_nil : joinText s content ≠ [] := by
  unfold joinText
  split <;> simp

/-- Putting a text in front writes it in front; the other readings of content below agree. -/
theorem writtenList_joinText :
    writtenList ps (joinText s content) = escapeText s ++ writtenList ps content := by
  unfold joinText
  split
  · rw [writtenList, writtenList, Node.writtenWith, Node.writtenWith, escapeText_append,
      String.append_assoc]
  · rw [writtenList, Node.writtenWith]

theorem meetAllList_joinText : meetAllList ps (joinText s content) = meetAllList ps content := by
  unfold joinText
  split <;> simp [meetAllList, Node.meetAll]

theorem allTextList_joinText : allTextList (joinText s content) = s ++ allTextList content := by
  unfold joinText
  split <;> simp [allTextList, Node.allText, String.append_assoc]

theorem childTags_joinText : childTags (joinText s content) = childTags content := by
  unfold joinText
  split <;> simp [childTags]

theorem renameList_joinText (f : Name → Name) :
    renameList f (joinText s content) = joinText s (renameList f content) := by
  cases content with
  | nil => rfl
  | cons n rest => cases n <;> rfl

end Join

/-! ## The elements without marks -/

/-- Leaving comments and instructions out keeps the child elements. -/
theorem childTags_withoutMarksList :
    ∀ content : List Node, childTags (withoutMarksList content) = childTags content
  | [] => rfl
  | .text s :: rest => by
    rw [withoutMarksList_text, childTags_joinText, childTags_withoutMarksList rest]
    rfl
  | .comment s :: rest => by
    rw [withoutMarksList_comment, childTags_withoutMarksList rest]
    rfl
  | .instruction s :: rest => by
    rw [withoutMarksList_instruction, childTags_withoutMarksList rest]
    rfl
  | .element tag inside :: rest => by
    have ih := childTags_withoutMarksList rest
    unfold childTags at ih ⊢
    rw [withoutMarksList_element, List.filterMap_cons, List.filterMap_cons, ih]

mutual

/-- Marks hold no text. -/
theorem allText_withoutMarks : ∀ n : Node, n.withoutMarks.allText = n.allText
  | .element tag inside => by
      rw [Node.withoutMarks, Node.allText, Node.allText, allTextList_withoutMarksList]
  | .text s => rfl
  | .comment s => rfl
  | .instruction s => rfl

/-- It keeps the text. -/
theorem allTextList_withoutMarksList : ∀ content : List Node,
    allTextList (withoutMarksList content) = allTextList content
  | [] => rfl
  | .comment s :: rest => by
    simp [withoutMarksList_comment, allTextList, Node.allText, allTextList_withoutMarksList rest]
  | .instruction s :: rest => by
    simp [withoutMarksList_instruction, allTextList, Node.allText,
      allTextList_withoutMarksList rest]
  | .text s :: rest => by
    rw [withoutMarksList_text, allTextList_joinText, allTextList, Node.allText,
      allTextList_withoutMarksList rest]
  | .element tag inside :: rest => by
    rw [withoutMarksList_element, ← Node.withoutMarks, allTextList, allTextList,
      allText_withoutMarks, allTextList_withoutMarksList rest]

end

/-- Without marks, the same names are met. -/
theorem meetAllList_withoutMarksList : ∀ (ps : Prefixes) (content : List Node),
    meetAllList ps (withoutMarksList content) = meetAllList ps content
  | _, [] => rfl
  | ps, .text s :: rest => by
    rw [withoutMarksList_text, meetAllList_joinText, meetAllList_withoutMarksList ps rest,
      meetAllList, Node.meetAll]
    · simp
  | ps, .comment s :: rest => by
    rw [withoutMarksList_comment, meetAllList_withoutMarksList ps rest, meetAllList, Node.meetAll]
    · simp
  | ps, .instruction s :: rest => by
    rw [withoutMarksList_instruction, meetAllList_withoutMarksList ps rest,
      meetAllList, Node.meetAll]
    · simp
  | ps, .element tag inside :: rest => by
    rw [withoutMarksList_element, meetAllList, meetAllList, Node.meetAll, Node.meetAll,
      meetAllList_withoutMarksList _ inside, meetAllList_withoutMarksList _ rest]

/-- It goes together with renaming. -/
theorem renameList_withoutMarksList (f : Name → Name) : ∀ content : List Node,
    renameList f (withoutMarksList content) = withoutMarksList (renameList f content)
  | [] => rfl
  | .text s :: rest => by
    rw [withoutMarksList_text, renameList_joinText, renameList_withoutMarksList f rest,
      renameList, Node.rename, withoutMarksList_text]
    · simp
  | .comment s :: rest => by
    rw [withoutMarksList_comment, renameList_withoutMarksList f rest, renameList, Node.rename,
      withoutMarksList_comment]
    · simp
  | .instruction s :: rest => by
    rw [withoutMarksList_instruction, renameList_withoutMarksList f rest, renameList, Node.rename,
      withoutMarksList_instruction]
    · simp
  | .element tag inside :: rest => by
    rw [withoutMarksList_element, renameList, renameList, Node.rename, Node.rename,
      withoutMarksList_element, renameList_withoutMarksList f inside,
      renameList_withoutMarksList f rest]

theorem markCountList_renameList (f : Name → Name) : ∀ content : List Node,
    markCountList (renameList f content) = markCountList content
  | [] => rfl
  | .text s :: rest | .comment s :: rest | .instruction s :: rest => by
    rw [renameList, markCountList, markCountList, markCountList_renameList f rest]
    rfl
  | .element tag inside :: rest => by
    rw [renameList, Node.rename, markCountList, markCountList, Node.markCount, Node.markCount,
      markCountList_renameList f inside, markCountList_renameList f rest]

/-! ## What is written -/

/-- The number of places where markup begins in a text. -/
def openings (s : String) : Nat := s.toList.count '<'

/-- Opening brackets are counted piece by piece. -/
theorem openings_append (s t : String) : openings (s ++ t) = openings s + openings t := by
  rw [openings, String.toList_append, List.count_append, openings, openings]

/-- Markup does not begin in text. -/
theorem openings_escapeText (s : String) : openings (escapeText s) = 0 :=
  List.count_eq_zero.2 fun h => (mem_escapeText h).1 rfl

section Written

variable {ps : Prefixes} {declared : String} {tag : Tag} {content : List Node}

/-- Each mark in an element is written with a `<`. -/
theorem openings_element (declared : String) (tag : Tag)
    (h : openings (writtenList ps (withoutMarksList content)) + markCountList content ≤
      openings (writtenList ps content)) :
    openings ((Node.element tag (withoutMarksList content)).writtenWith ps declared) +
      markCountList content ≤ openings ((Node.element tag content).writtenWith ps declared) := by
  cases content with
  | nil => exact Nat.le_refl _
  | cons n rest =>
    have hslash : openings " />" = 0 := rfl
    simp only [Node.writtenWith, List.isEmpty_cons, Bool.false_eq_true, if_false]
    split
    · -- all content was marks, and the element is now written without an end tag
      simp only [openings_append]
      omega
    · simp only [openings_append]
      omega

/-- Each mark that is left out takes an opening bracket with it, so that content with marks is
written differently without them. -/
theorem openings_withoutMarksList (ps : Prefixes) : ∀ content : List Node,
    openings (writtenList ps (withoutMarksList content)) + markCountList content ≤
      openings (writtenList ps content)
  | [] => Nat.le_refl _
  | .text s :: rest => by
    have ih := openings_withoutMarksList ps rest
    rw [withoutMarksList_text, writtenList_joinText, writtenList, markCountList,
      Node.writtenWith, Node.markCount, openings_append, openings_append]
    omega
  | .comment s :: rest => by
    have ih := openings_withoutMarksList ps rest
    have hopen : openings "<!--" = 1 := rfl
    rw [withoutMarksList_comment, writtenList, markCountList, Node.writtenWith,
      Node.markCount, openings_append, openings_append, openings_append]
    omega
  | .instruction s :: rest => by
    have ih := openings_withoutMarksList ps rest
    have hopen : openings "<?" = 1 := rfl
    rw [withoutMarksList_instruction, writtenList, markCountList, Node.writtenWith,
      Node.markCount, openings_append, openings_append, openings_append]
    omega
  | .element tag inside :: rest => by
    have ih := openings_withoutMarksList ps rest
    have hinside := openings_element "" tag (openings_withoutMarksList ps inside)
    rw [withoutMarksList_element, writtenList, writtenList, markCountList,
      Node.markCount, openings_append, openings_append]
    omega

/-- An element with content is written with an end tag. -/
theorem element_congr {more : List Node} (hempty : more = [] ↔ content = [])
    (h : writtenList ps more = writtenList ps content) :
    (Node.element tag more).writtenWith ps declared =
      (Node.element tag content).writtenWith ps declared := by
  have hboth : more.isEmpty = content.isEmpty := by
    rw [Bool.eq_iff_iff, List.isEmpty_iff, List.isEmpty_iff, hempty]
  simp only [Node.writtenWith, h, hboth]

theorem withoutMarksList_eq_nil (h : markCountList content = 0) :
    withoutMarksList content = [] ↔ content = [] := by
  cases content with
  | nil => exact Iff.rfl
  | cons n rest =>
    rw [markCountList, Nat.add_eq_zero_iff] at h
    refine iff_of_false ?_ (List.cons_ne_nil n rest)
    cases n with
    | text s =>
      rw [withoutMarksList_text]
      exact joinText_ne_nil
    | element tag inside =>
      rw [withoutMarksList_element]
      exact List.cons_ne_nil _ _
    | comment s => exact absurd h.1 Nat.one_ne_zero
    | instruction s => exact absurd h.1 Nat.one_ne_zero

/-- Without marks there is nothing to leave out, and texts side by side are written as one. -/
theorem writtenList_withoutMarksList (ps : Prefixes) :
    ∀ {content : List Node}, markCountList content = 0 →
    writtenList ps (withoutMarksList content) = writtenList ps content
  | [], _ => rfl
  | .text s :: rest, h => by
    rw [markCountList, Nat.add_eq_zero_iff] at h
    rw [withoutMarksList_text, writtenList_joinText, writtenList, Node.writtenWith,
      writtenList_withoutMarksList ps h.2]
  | .comment s :: rest, h | .instruction s :: rest, h => by
    rw [markCountList, Nat.add_eq_zero_iff] at h
    exact absurd h.1 Nat.one_ne_zero
  | .element tag inside :: rest, h => by
    rw [markCountList, Node.markCount, Nat.add_eq_zero_iff] at h
    rw [withoutMarksList_element, writtenList, writtenList, writtenList_withoutMarksList ps h.2,
      element_congr (withoutMarksList_eq_nil h.1) (writtenList_withoutMarksList ps h.1)]

/-- Namespaces are met in the same order without the marks. -/
theorem meetAll_element (ps : Prefixes) (tag : Tag) (content : List Node) :
    (Node.element tag (withoutMarksList content)).meetAll ps =
      (Node.element tag content).meetAll ps := by
  rw [Node.meetAll, Node.meetAll, meetAllList_withoutMarksList]

/-- The same count for a whole element. -/
theorem openings_written (tag : Tag) (content : List Node) :
    openings (Node.element tag (withoutMarksList content)).written + markCountList content ≤
      openings (Node.element tag content).written := by
  simp only [Node.written, meetAll_element]
  exact openings_element _ tag (openings_withoutMarksList _ content)

/-- Without marks, nothing changes in what is written. -/
theorem written_withoutMarksList (tag : Tag) (h : markCountList content = 0) :
    (Node.element tag (withoutMarksList content)).written = (Node.element tag content).written := by
  simp only [Node.written, meetAll_element]
  exact element_congr (withoutMarksList_eq_nil h) (writtenList_withoutMarksList _ h)

/-- An element is written in the same way without its marks just if it has none. -/
theorem written_withoutMarks_iff (tag : Tag) (content : List Node) :
    (Node.element tag content).withoutMarks.written = (Node.element tag content).written ↔
      (Node.element tag content).markCount = 0 := by
  rw [Node.withoutMarks, Node.markCount]
  refine ⟨fun h => ?_, written_withoutMarksList tag⟩
  have hle := openings_written tag content
  rw [h] at hle
  omega

end Written

end Wadl.Xml
