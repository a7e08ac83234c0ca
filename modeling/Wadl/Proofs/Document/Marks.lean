import Wadl.Proofs.Document.Documentation
import Wadl.Proofs.Document.Recast
import Wadl.Proofs.Xml.Marks

/-!
# Comments and instructions in documentation

The content of documentation is read with the comments and instructions that stand in its elements,
and without the text that follows the others up to the next element. Where there is neither, they
are harmless (`Element.HarmlessMarks`), and just then the documentation is the same without them
(`readDoc_unmarked_iff`).
-/

namespace Wadl

namespace Reader

/-! ## Documentation -/

/-- An element without the comments and instructions in it. -/
def Element.unmarked (e : Element) : Element := ⟨e.tag, Xml.withoutMarksList e.content⟩

/-- The text after comments and instructions, up to the next element each; `marked` says that the
pieces follow one. -/
def tailText (marked : Bool) : List Xml.Node → String
  | [] => ""
  | .text s :: rest => (if marked then s else "") ++ tailText marked rest
  | .element .. :: rest => tailText false rest
  | _ :: rest => tailText true rest

/-- The number of comments and instructions in the elements among some pieces. -/
def nestedMarks : List Xml.Node → Nat
  | [] => 0
  | .element _ inside :: rest => Xml.markCountList inside + nestedMarks rest
  | _ :: rest => nestedMarks rest

/-- No text of the content of an element follows a comment or an instruction before the next
element, and there are none in the elements in it. -/
structure Element.HarmlessMarks (e : Element) : Prop where
  tails : tailText false e.content = ""
  nested : nestedMarks e.content = 0

theorem markupText_joinText (s : String) (content : List Xml.Node) :
    markupText true (Xml.joinText s content) = Xml.escapeText s ++ markupText true content := by
  unfold Xml.joinText
  split
  · simp only [markupText, if_true, Xml.escapeText_append, String.append_assoc]
  · rw [markupText, if_pos rfl]

section Markup

variable (tag : Xml.Tag) {content : List Xml.Node}

theorem openings_plainMarkup (content : List Xml.Node) :
    Xml.openings (plainMarkup (.element tag (Xml.withoutMarksList content))).written +
      Xml.markCountList content ≤ Xml.openings (plainMarkup (.element tag content)).written := by
  rw [plainMarkup_eq_rename, plainMarkup_eq_rename, Xml.Node.rename, Xml.Node.rename,
    Xml.renameList_withoutMarksList, ← Xml.markCountList_renameList plainName content]
  exact Xml.openings_written _ _

theorem written_plainMarkup (h : Xml.markCountList content = 0) :
    (plainMarkup (.element tag (Xml.withoutMarksList content))).written =
      (plainMarkup (.element tag content)).written := by
  rw [plainMarkup_eq_rename, plainMarkup_eq_rename, Xml.Node.rename, Xml.Node.rename,
    Xml.renameList_withoutMarksList]
  exact Xml.written_withoutMarksList _ ((Xml.markCountList_renameList plainName content).trans h)

end Markup

/-- Each mark in an element among the content stands in what is read of it. -/
theorem openings_markupText : ∀ (kept : Bool) (content : List Xml.Node),
    Xml.openings (markupText true (Xml.withoutMarksList content)) + nestedMarks content ≤
      Xml.openings (markupText kept content)
  | _, [] => Nat.le_refl _
  | kept, .text s :: rest => by
    have ih := openings_markupText kept rest
    rw [Xml.withoutMarksList_text, markupText_joinText, markupText, nestedMarks,
      Xml.openings_append, Xml.openings_append, Xml.openings_escapeText]
    · omega
    · simp
  | kept, .comment s :: rest => by
    rw [Xml.withoutMarksList_comment, markupText, nestedMarks]
    · exact openings_markupText false rest
    all_goals simp
  | kept, .instruction s :: rest => by
    rw [Xml.withoutMarksList_instruction, markupText, nestedMarks]
    · exact openings_markupText false rest
    all_goals simp
  | kept, .element tag inside :: rest => by
    have ih := openings_markupText true rest
    have hinside := openings_plainMarkup tag inside
    rw [Xml.withoutMarksList_element, markupText, markupText, nestedMarks, Xml.openings_append,
      Xml.openings_append]
    omega

/-- If no mark stands in an element, what is lost is the text after the marks. -/
theorem length_markupText : ∀ (kept : Bool) {content : List Xml.Node}, nestedMarks content = 0 →
    (markupText true (Xml.withoutMarksList content)).length =
      (markupText kept content).length + (Xml.escapeText (tailText (!kept) content)).length
  | _, [], _ => rfl
  | kept, .text s :: rest, h => by
    rw [nestedMarks] at h
    · have ih := length_markupText kept h
      rw [Xml.withoutMarksList_text, markupText_joinText, markupText, tailText,
        String.length_append, ih, Xml.escapeText_append, String.length_append, String.length_append]
      cases kept
      · simp only [Bool.not_false, if_true, Bool.false_eq_true, if_false, String.length_empty]
        omega
      · simp only [Bool.not_true, if_true, Bool.false_eq_true, if_false, Xml.escapeText_empty,
          String.length_empty]
        omega
    · simp
  | kept, .comment s :: rest, h | kept, .instruction s :: rest, h => by
    rw [nestedMarks] at h
    · simpa [Xml.withoutMarksList, markupText, tailText] using length_markupText false h
    · simp
  | kept, .element tag inside :: rest, h => by
    rw [nestedMarks, Nat.add_eq_zero_iff] at h
    have ih := length_markupText true h.2
    rw [Xml.withoutMarksList_element, markupText, markupText, tailText, written_plainMarkup tag h.1,
      String.length_append, String.length_append, ih, Nat.add_assoc]
    rfl

/-- If no mark stands in an element or has text after it, nothing is lost. -/
theorem markupText_of_harmless :
    ∀ (kept : Bool) {content : List Xml.Node}, nestedMarks content = 0 →
    tailText (!kept) content = "" → markupText true (Xml.withoutMarksList content) =
      markupText kept content
  | _, [], _, _ => rfl
  | kept, .text s :: rest, h, htail => by
    rw [nestedMarks] at h
    · rw [tailText, String.append_eq_empty_iff] at htail
      rw [Xml.withoutMarksList_text, markupText_joinText, markupText,
        markupText_of_harmless kept h htail.2]
      cases kept
      · have hs : s = "" := htail.1
        rw [hs, Xml.escapeText_empty]
        rfl
      · rfl
    · simp
  | kept, .comment s :: rest, h, htail | kept, .instruction s :: rest, h, htail => by
    rw [nestedMarks] at h
    · rw [tailText] at htail
      · simpa [Xml.withoutMarksList, markupText] using markupText_of_harmless false h htail
      all_goals simp
    · simp
  | kept, .element tag inside :: rest, h, htail => by
    rw [nestedMarks, Nat.add_eq_zero_iff] at h
    rw [Xml.withoutMarksList_element, markupText, markupText, written_plainMarkup tag h.1,
      markupText_of_harmless true h.2 htail]

/-- The content of documentation is the same without marks just if they are harmless: those in
elements stand in the content, and the text after others does not. -/
theorem markupText_unmarked_iff {e : Element} :
    markupText true e.unmarked.content = markupText true e.content ↔ e.HarmlessMarks := by
  refine ⟨fun h => ?_, fun h => markupText_of_harmless true h.nested h.tails⟩
  have hopenings := openings_markupText true e.content
  rw [Element.unmarked] at h
  rw [h] at hopenings
  have hnested : nestedMarks e.content = 0 := by omega
  have hlength := length_markupText true hnested
  rw [h] at hlength
  have hescaped : (Xml.escapeText (tailText false e.content)).length = 0 := by
    have hsum : (Xml.escapeText (tailText (!true) e.content)).length = 0 := by omega
    exact hsum
  exact ⟨Xml.escapeText_eq_empty.1 (String.length_eq_zero_iff.1 hescaped), hnested⟩

example : markupText true [.text "a", .comment "c", .text "b"] = "a" := by decide

/-- All documentation, but not its content. -/
def bare : Recast := ⟨id, fun d => { d with content := "" }⟩

theorem readDoc_unmarked_bare (e : Element) :
    bare.doc (readDoc e.unmarked) = bare.doc (readDoc e) := by
  simp only [bare, readDoc, Element.unmarked, Element.get?, Xml.childTags_withoutMarksList]

theorem readDoc_unmarked_iff {e : Element} : readDoc e.unmarked = readDoc e ↔ e.HarmlessMarks := by
  rw [← markupText_unmarked_iff]
  refine ⟨fun h => congrArg Doc.content h, fun h => ?_⟩
  have hbare := readDoc_unmarked_bare e
  simp only [bare, Doc.mk.injEq] at hbare
  rw [Doc.mk.injEq]
  exact ⟨hbare.1, hbare.2.1, h, hbare.2.2.2⟩

end Reader

end Wadl
