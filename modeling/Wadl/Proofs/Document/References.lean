import Wadl.Document.Render
import Wadl.Proofs.Document.Sound
import Wadl.Proofs.Uri.Rejoin
import Wadl.Proofs.Xml.Characters

/-!
# References that are written

A reference that was joined with the base is written as a text that is joined to the same reference
again (`Reference.written_ok`), be it a fragment of the base or the whole URI. The text has no
characters but those of the base and of the text that it was first read from, and marks.
-/

namespace Wadl

/-- The base of a description: an absolute http or https URI without a fragment, which is the text
of its parts. A URI holds no white space and only characters that documents may hold. -/
structure HttpBase (base : String) : Prop where
  parts : ∃ u, Uri.parse base.toList = .ok u ∧ Uri.IsHttp u.scheme ∧ u.authority ≠ [] ∧
    u.text = base.toList ∧ u.fragment = []
  noBlank : ∀ c ∈ base.toList, Text.isBlank c = false
  text : Xml.IsText base

theorem not_isBlank_of_isMark {c : Char} (h : Uri.isMark c) : Text.isBlank c = false := by
  rcases h with rfl | rfl | rfl | rfl | rfl <;> decide

theorem isChar_of_isMark {c : Char} (h : Uri.isMark c) : Xml.isChar c = true := by
  rcases h with rfl | rfl | rfl | rfl | rfl <;> decide

/-- A joined reference is written as a text that is joined to it again. -/
theorem Reference.written_ok {base href : String} (hbase : HttpBase base) {r : Reference}
    (h : joinUri base href = .ok r.href) :
    ∃ w, r.written base = .ok w ∧ joinUri base w = .ok r.href ∧ w ≠ "" ∧
      ∀ c ∈ w.toList, c ∈ base.toList ∨ c ∈ href.toList ∨ Uri.isMark c := by
  obtain ⟨u, hparse, hhttp, hauthority, htext, hfragment⟩ := hbase.parts
  have habsolute := Uri.absolute_of_parseWith hparse hhttp hauthority
  unfold joinUri at h
  cases hjoin : Uri.join base.toList href.toList with
  | error e =>
    rw [hjoin] at h
    cases h
  | ok uri =>
    rw [hjoin] at h
    have huri : String.ofList uri = r.href := Except.ok.inj h
    obtain ⟨document, fragment, hdefragment, hagain, hmem, hchars, hne⟩ :=
      Uri.join_written hparse habsolute htext hfragment hjoin
    have htarget : r.target = .ok (String.ofList document, String.ofList fragment) := by
      unfold target defragmentUri
      rw [← huri, String.toList_ofList, hdefragment]
      rfl
    have hdocument : String.ofList document = base ↔ document = base.toList := by
      rw [← String.toList_inj, String.toList_ofList]
    have hhash : '#' :: fragment = ("#" ++ String.ofList fragment).toList := by simp
    have hwritten : r.written base =
        .ok (String.ofList (if document = base.toList then '#' :: fragment else uri)) := by
      unfold written
      rw [htarget, ← huri]
      by_cases hlocal : document = base.toList
      · have hsame := hdocument.2 hlocal
        simp only [if_pos hlocal, hhash, String.ofList_toList]
        show Except.ok (if String.ofList document = base then _ else _) = _
        rw [if_pos hsame]
      · have hother := fun hsame => hlocal (hdocument.1 hsame)
        simp only [if_neg hlocal]
        show Except.ok (if String.ofList document = base then _ else _) = _
        rw [if_neg hother]
    refine ⟨_, hwritten, ?_, ?_, ?_⟩
    · unfold joinUri
      rw [String.toList_ofList, hagain, ← huri]
      rfl
    · intro hempty
      have hlist := congrArg String.toList hempty
      rw [String.toList_ofList] at hlist
      split at hlist
      · cases hlist
      · exact hne hlist
    · intro c hc
      rw [String.toList_ofList] at hc
      split at hc
      · rcases List.mem_cons.1 hc with rfl | hc
        · exact Or.inr (Or.inr (by simp [Uri.isMark]))
        · exact hchars c (hmem c hc)
      · exact hchars c hc

/-- A reference that was read from a text that documents may hold is written as one. -/
theorem Reference.Sound.written {c : Criteria} (hbase : HttpBase c.base)
    (htext : ∀ s, c.text s → Xml.IsText s) {kind : DefinitionKind} {r : Reference}
    (h : r.Sound c kind) :
    ∃ w, r.written c.base = .ok w ∧ joinUri c.base w = .ok r.href ∧ w ≠ "" ∧ Xml.IsText w := by
  obtain ⟨-, href, hhref, hjoin⟩ := h
  obtain ⟨w, hwritten, hagain, hne, hchars⟩ := Reference.written_ok hbase hjoin
  refine ⟨w, hwritten, hagain, hne, fun d hd => ?_⟩
  rcases hchars d hd with hd | hd | hd
  · exact hbase.text d hd
  · exact htext href hhref d hd
  · exact isChar_of_isMark hd

/-- A reference that was read from a word is written as one. -/
theorem Reference.Sound.written_word {c : Criteria} (hbase : HttpBase c.base)
    (htext : ∀ s, c.text s → Xml.IsText s ∧ IsWord s) {kind : DefinitionKind} {r : Reference}
    (h : r.Sound c kind) :
    ∃ w, r.written c.base = .ok w ∧ joinUri c.base w = .ok r.href ∧ IsWord w ∧ Xml.IsText w := by
  obtain ⟨w', hwritten', -, -, hw'⟩ := h.written hbase fun s hs => (htext s hs).1
  obtain ⟨-, href, hhref, hjoin⟩ := h
  obtain ⟨w, hwritten, hagain, hne, hchars⟩ := Reference.written_ok hbase hjoin
  obtain rfl : w = w' := Except.ok.inj (hwritten.symm.trans hwritten')
  refine ⟨w, hwritten, hagain, ⟨hne, fun d hd => ?_⟩, hw'⟩
  rcases hchars d hd with hd | hd | hd
  · exact hbase.noBlank d hd
  · exact (htext href hhref).2.2 d hd
  · exact not_isBlank_of_isMark hd

end Wadl
