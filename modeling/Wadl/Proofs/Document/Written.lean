import Wadl.Proofs.Document.Outline
import Wadl.Proofs.Text.Pieces

/-!
# Documents read back

The document of a description's root is read as the tree that the root stands for
(`readText_document`), and this tree is the same without comments and instructions
(`withoutMarks_content`).
-/

namespace Wadl

open Xml

namespace Outline

/-! ## Line ends -/

section Return

theorem return_notMem_startChars {attributes : List (String × String)}
    (h : ∀ a ∈ attributes, isLabel a.1.toList = true) (k : ElementKind) :
    '\r' ∉ startChars k.word attributes := by
  intro hmem
  rcases List.mem_append.1 hmem with hmem | hmem
  · exact return_notMem_label (isLabel_word k) hmem
  · obtain ⟨a, ha, hmem⟩ := List.mem_flatMap.1 hmem
    have hcases : '\r' ∈ a.1.toList ∨ '\r' = attributeQuote a.2 ∨ '\r' ∈ quotedBody a.2 := by
      simpa [attributeChars, or_left_comm, or_comm, or_assoc] using hmem
    rcases hcases with hname | hquote | hbody
    · exact return_notMem_label (h a ha) hname
    · rcases attributeQuote_eq a.2 with hq | ⟨hq, -⟩ <;> rw [hq] at hquote <;> cases hquote
    · exact (mem_quotedBody hbody).2.2 rfl

theorem return_notMem_gap (depth : Nat) : '\r' ∉ (gap depth).toList := by
  intro h
  rcases mem_gap h with h | h <;> cases h

theorem return_notMem_finish (k : ElementKind) : '\r' ∉ '/' :: k.word.toList := by
  cases k <;> decide

mutual

/-- No carriage return is written. -/
theorem return_notMem_written {before : String} (hbefore : '\r' ∉ before.toList) (depth : Nat) :
    ∀ {o : Outline}, o.Sound → '\r' ∉ o.written before depth
  | .element _ _ children, .element (k := k) hsound _ hchildren => by
    have hstart := return_notMem_startChars (fun a ha => (hsound.readable a ha).1) k
    have hinside := return_notMem_writtenList (depth + 1) hchildren
    rw [written]
    split
    · exact return_notMem_tagAfter hbefore (by simp [hstart])
    · simp only [List.mem_append, not_or]
      exact ⟨⟨return_notMem_tagAfter hbefore hstart, hinside⟩,
        return_notMem_tagAfter (return_notMem_gap depth) (return_notMem_finish k)⟩
  | .verbatim _ _ _, .doc hsound _ hreturn => by
    have hstart := return_notMem_startChars (fun a ha => (hsound.readable a ha).1) .doc
    rw [written, List.mem_append, not_or]
    exact ⟨return_notMem_tagAfter hbefore hstart,
      return_notMem_tagAfter (return_notMem_escapeText hreturn) (return_notMem_finish .doc)⟩

/-- What is written holds no carriage return, so that reading does not change its line ends. -/
theorem return_notMem_writtenList (depth : Nat) :
    ∀ {os : List Outline}, (∀ o ∈ os, o.Sound) → '\r' ∉ writtenList depth os
  | [], _ => by simp [writtenList]
  | o :: os, h => by
    obtain ⟨ho, hos⟩ := List.forall_mem_cons.1 h
    rw [writtenList, List.mem_append, not_or]
    exact ⟨return_notMem_written (return_notMem_gap depth) depth ho,
      return_notMem_writtenList depth hos⟩

end

end Return

/-! ## Documents -/

/-- The root of a description. -/
def root (children : List Outline) : Outline :=
  .element ElementKind.application.word [("xmlns", wadlSpace)] children

/-- The tag of the root, which declares the namespace. -/
def rootTag : Tag := ⟨⟨some wadlSpace, ElementKind.application.word⟩, []⟩

/-- The XML declaration of a document. -/
def declaration : List Char := "<?xml version=\"1.0\" encoding=\"utf-8\"?>".toList

/-- A document is its declaration, its root and a line end. -/
theorem toList_document (o : Outline) :
    o.document.toList = declaration ++ '\n' :: (o.written "" 0 ++ ['\n']) := by
  have hjoin : ∀ {ls : List String}, ls ≠ [] →
      '\n' :: ("\n".intercalate ls).toList = ls.flatMap fun l => '\n' :: l.toList := by
    intro ls
    rw [String.toList_intercalate]
    induction ls with
    | nil => exact fun h => absurd rfl h
    | cons l ls ih =>
      intro _
      cases ls with
      | nil => simp
      | cons m ls =>
        have htail := ih (List.cons_ne_nil m ls)
        rw [List.map_cons] at htail
        rw [List.flatMap_cons, ← htail, List.map_cons, List.map_cons, List.intercalate_cons_cons]
        simp
  have hlines : o.lines 0 ≠ [] := by
    unfold lines
    split <;> simp
  have hbody : '\n' :: ("\n".intercalate (o.lines 0)).toList = '\n' :: o.written "" 0 := by
    rw [hjoin hlines, flatMap_lines, written_append]
    rfl
  have hdocument : o.document.toList =
      declaration ++ ('\n' :: ("\n".intercalate (o.lines 0)).toList) ++ ['\n'] := by
    unfold document declaration
    simp
  rw [hdocument, hbody]
  simp

/-- The declaration is read as UTF-8. -/
theorem declaration_read (rest : List Char) :
    declaration? (declaration ++ '\n' :: rest) = some ({ charset := some "utf-8" }, '\n' :: rest) :=
  rfl

/-- Nothing stands between the declaration and the root. -/
theorem prolog_read (fuel : Nat) (rest : List Char) :
    prolog? false (fuel + 1) none ('\n' :: '<' :: 'a' :: rest) =
      some (.empty false, '<' :: 'a' :: rest) := rfl

/-- The root is in the namespace it declares. -/
theorem resolveTag_root :
    resolveTag [] ElementKind.application.word.toList (spelled [("xmlns", wadlSpace)]) =
      some (rootTag, rootBindings) := by
  decide +kernel

/-- The end of the root, with the end of its line after it. -/
theorem build_rootFinish {label : List Char} {content : List Node} :
    build (.empty false) [⟨label, rootTag, rootBindings, content⟩]
      (.tag (.finish label) :: [.text [.plain '\n']]) =
        some (.element rootTag content.reverse) := by
  rw [build, if_pos rfl]
  rfl

theorem tokens_end : tokens ['\n'] = some [.text [.plain '\n']] := by
  decide

theorem noEntities_end : NoEntities [.text [.plain '\n']] := by
  intro ps hps
  obtain rfl := Token.text.inj (List.mem_singleton.1 hps)
  rfl

theorem rootAttributes_labels :
    ∀ a ∈ [("xmlns", wadlSpace)], isLabel a.1.toList = true ∧ IsText a.2 := by
  intro a ha
  rw [List.mem_singleton.1 ha]
  have hspace : ∀ c ∈ wadlSpace.toList, isChar c = true := List.all_eq_true.1 (by decide)
  exact ⟨by decide, hspace⟩

/-- The characters of a root around those of its content. -/
def rootChars (cs : List Char) : List Char :=
  tagAfter "" (startChars ElementKind.application.word [("xmlns", wadlSpace)]) ++ cs ++
    tagAfter (gap 0) ('/' :: ElementKind.application.word.toList)

/-- What stands in the root is read before the root is finished, in its bindings. -/
theorem tokens_rootChars {cs : List Char} {ts : List Token} (htokens : Tokenizes cs ts)
    (hts : NoEntities ts) : ∃ start finish, NoEntities (start ++ ts ++ finish) ∧
      tokens (rootChars cs ++ ['\n']) = some (start ++ ts ++ finish) ∧
      (∀ rest, build (.empty false) [] (start ++ rest) =
        build (.empty false)
          [⟨ElementKind.application.word.toList, rootTag, rootBindings, []⟩] rest) ∧
      ∀ nodes : List Node, Ready nodes.reverse →
        build (.empty false)
          [⟨ElementKind.application.word.toList, rootTag, rootBindings, nodes.reverse⟩] finish =
          some (.element rootTag (nodes ++ [.text (gap 0)])) := by
  have hempty : IsText "" := by simp [IsText]
  have hlabel := isLabel_word .application
  obtain ⟨ps, raws, hps, hraws, hstart⟩ :=
    tokenizes_start hempty hlabel (spells_attributeChars rootAttributes_labels) .plain
  obtain ⟨qs, hqs, hfinish⟩ := tokenizes_finish (isText_gap 0) hlabel
  rw [escapeText_empty, List.append_nil] at hstart
  rw [escapeText_gap] at hfinish
  refine ⟨textToken "" ps ++ [.tag (.start ElementKind.application.word.toList raws false)],
    textToken (gap 0) qs ++ [.tag (.finish ElementKind.application.word.toList)] ++
      [.text [.plain '\n']],
    ?_, ?_, fun rest => ?_, fun nodes hready => ?_⟩
  · exact ((noEntities_textToken hps _).append hts).append
      ((noEntities_textToken hqs _).append noEntities_end)
  · rw [← List.append_assoc]
    exact tokens_append ((hstart.append htokens).append hfinish) tokens_end
  · rw [textToken, if_pos rfl, List.nil_append, List.singleton_append, build,
      attributeValues_of_is hraws]
    simp only [Option.bind_eq_bind, Option.bind_some, resolveTag_root, Bool.false_eq_true, if_false]
  · rw [List.append_assoc, build_text hqs hready, List.singleton_append, build_rootFinish,
      List.reverse_append, List.reverse_reverse, reverse_textNodes, textNodes_gap]

/-- A document whose root holds what was read is read as the root. -/
theorem readText_declared {text : String} {cs more : List Char} {ts : List Token}
    (htext : text.toList = declaration ++ '\n' :: cs)
    (hcs : Text.unifyLineEnds cs = '<' :: 'a' :: more)
    (htokens : tokens ('<' :: 'a' :: more) = some ts) (hts : NoEntities ts) :
    readText text = build (.empty false) [] ts := by
  have hmark : withoutMark (declaration ++ '\n' :: cs) = declaration ++ '\n' :: cs := rfl
  have hlines : Text.unifyLineEnds (declaration ++ '\n' :: cs) =
      declaration ++ '\n' :: '<' :: 'a' :: more := by
    rw [Text.unifyLineEnds_append_of_notMem (by decide), Text.unifyLineEnds_other (by decide), hcs]
  unfold readText
  rw [htext, hmark]
  simp only [hlines]
  rw [declaration_read, Option.bind_eq_bind, Option.bind_some]
  unfold readAfterDeclaration
  rw [prolog_read, Option.bind_eq_bind, Option.bind_some]
  simp only [Option.bind_eq_bind, htokens, Option.bind_some, expandTokens_of_noEntities hts]

theorem rootChars_begin (cs : List Char) : ∃ more, rootChars cs = '<' :: 'a' :: more := ⟨_, rfl⟩

/-- Nor does the root hold a carriage return. -/
theorem return_notMem_root {children : List Outline} (h : ∀ o ∈ children, o.Sound) :
    '\r' ∉ (root children).written "" 0 := by
  have hstart : '\r' ∉ startChars ElementKind.application.word [("xmlns", wadlSpace)] := by
    refine return_notMem_startChars (fun a ha => ?_) .application
    rw [List.mem_singleton.1 ha]
    decide
  have hempty : '\r' ∉ ("" : String).toList := by decide
  rw [root, written]
  split
  · exact return_notMem_tagAfter hempty (by simp [hstart])
  · simp only [List.mem_append, not_or]
    exact ⟨⟨return_notMem_tagAfter hempty hstart, return_notMem_writtenList 1 h⟩,
      return_notMem_tagAfter (return_notMem_gap 0) (return_notMem_finish .application)⟩

/-- The tokens of a document's content make the tree of its root. -/
theorem build_root {children : List Outline} (h : ∀ o ∈ children, o.Sound) :
    ∃ ts, tokens ((root children).written "" 0 ++ ['\n']) = some ts ∧ NoEntities ts ∧
      build (.empty false) [] ts = some (.element rootTag ((root children).content 0)) := by
  cases children with
  | nil =>
    have hempty : IsText "" := by simp [IsText]
    obtain ⟨ps, raws, hps, hraws, hstart⟩ :=
      tokenizes_start hempty (isLabel_word .application)
        (spells_attributeChars rootAttributes_labels) .empty
    refine ⟨_, tokens_append hstart tokens_end,
      (noEntities_textToken hps _).append noEntities_end, ?_⟩
    rw [textToken, if_pos rfl, List.nil_append, List.singleton_append, build,
      attributeValues_of_is hraws]
    simp only [Option.bind_eq_bind, Option.bind_some, resolveTag_root]
    rfl
  | cons child children =>
    obtain ⟨ts, htokens, hts, hbuild⟩ := adds_writtenList 1 h
    obtain ⟨start, finish, hall, hread, hstart, hfinish⟩ := tokens_rootChars htokens hts
    refine ⟨_, hread, hall, ?_⟩
    rw [List.append_assoc, hstart, hbuild _ _ _ _ _ _ ready_nil, List.append_nil,
      hfinish _ (ready_between 1 child children)]
    rfl

/-- The document of a description's root is read as the tree of the root. -/
theorem readText_document {children : List Outline} (h : ∀ o ∈ children, o.Sound) :
    readText (root children).document = some (.element rootTag ((root children).content 0)) := by
  obtain ⟨ts, htokens, hts, hbuild⟩ := build_root h
  obtain ⟨more, hmore⟩ : ∃ more, (root children).written "" 0 ++ ['\n'] = '<' :: 'a' :: more := by
    cases children with
    | nil => exact ⟨_, rfl⟩
    | cons child children => exact ⟨_, rfl⟩
  have hreturn : '\r' ∉ (root children).written "" 0 ++ ['\n'] := by
    simp [return_notMem_root h]
  rw [hmore] at htokens hreturn
  rw [readText_declared (by rw [toList_document, hmore])
    (Text.unifyLineEnds_eq_self.2 hreturn) htokens hts]
  exact hbuild

/-! ## No comments and instructions -/

mutual

/-- The tree of an outline holds no comments and instructions, and no texts that follow each
other. -/
theorem withoutMarks_content (depth : Nat) :
    ∀ o : Outline, withoutMarksList (o.content depth) = o.content depth
  | .element _ _ [] => by simp [content, withoutMarksList]
  | .element _ _ (child :: children) => by
    have hend : withoutMarksList [.text (gap depth)] = [.text (gap depth)] := by
      simp [withoutMarksList, joinText]
    rw [content]
    exact withoutMarks_between (depth + 1) hend (child :: children)
  | .verbatim _ _ _ => by
    rw [content, textNodes]
    split <;> simp [withoutMarksList, joinText]

/-- Nothing that is written is a comment or an instruction. -/
theorem withoutMarks_between (depth : Nat) {tail : List Node}
    (htail : withoutMarksList tail = tail) :
    ∀ os : List Outline, withoutMarksList (between depth os ++ tail) = between depth os ++ tail
  | [] => by
    rw [between, List.nil_append]
    exact htail
  | o :: os => by
    rw [between, List.cons_append, List.cons_append, withoutMarksList, withoutMarksList,
      Node.withoutMarks, withoutMarks_content depth o, withoutMarks_between depth htail os]
    rfl

end

end Outline

end Wadl
