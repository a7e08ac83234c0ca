import Wadl.Proofs.Charset.Utf8
import Wadl.Proofs.Text.Pieces
import Wadl.Proofs.Xml.Content

/-!
# Flat elements read back

A flat element holds elements that hold text, and no attributes and namespaces occur in it. Its
bytes are read as the element, if its names are names of XML and its texts hold no carriage return
(`readBytes_flat`). Plain text that is put into an element as it stands is all that the element
holds, if it is read (`readText_doc`).
-/

namespace Wadl.Xml

/-- An element that holds only text. -/
def leaf (label text : String) : Node := .element ⟨.plain label, []⟩ (textNodes text)

/-- An element that holds elements with text, given by their labels and texts. -/
def flat (label : String) (pairs : List (String × String)) : Node :=
  .element ⟨.plain label, []⟩ (pairs.map fun p => leaf p.1 p.2)

/-- The label and the texts that a document can hold as they are. -/
structure Sendable (label : String) (pairs : List (String × String)) : Prop where
  label : isName label.toList = true
  labels : ∀ p ∈ pairs, isName p.1.toList = true
  texts : ∀ p ∈ pairs, IsText p.2
  returns : ∀ p ∈ pairs, '\r' ∉ p.2.toList

variable {label text : String} {pairs : List (String × String)}

/-! ## The characters of a flat element -/

/-- The characters of an element that holds only text. -/
def leafChars (label text : String) : List Char :=
  if text = "" then tagAfter "" (label.toList ++ [' ', '/'])
  else tagAfter "" label.toList ++ tagAfter (escapeText text) ('/' :: label.toList)

theorem toList_leaf (label text : String) :
    ((leaf label text).writtenWith [] "").toList = leafChars label text := by
  unfold leafChars leaf textNodes
  by_cases hempty : text = ""
  · simp [hempty, Node.writtenWith, Prefixes.qualify, Name.plain, tagAfter]
  · simp [hempty, Node.writtenWith, writtenList, Prefixes.qualify, Name.plain, tagAfter]

theorem toList_leaves (pairs : List (String × String)) :
    (writtenList [] (pairs.map fun p => leaf p.1 p.2)).toList =
      pairs.flatMap fun p => leafChars p.1 p.2 := by
  induction pairs with
  | nil => rfl
  | cons p pairs ih =>
    rw [List.map_cons, writtenList, String.toList_append, toList_leaf, ih, List.flatMap_cons]

/-- The characters of a flat element. -/
def flatChars (label : String) (pairs : List (String × String)) : List Char :=
  if pairs = [] then tagAfter "" (label.toList ++ [' ', '/'])
  else tagAfter "" label.toList ++ (pairs.flatMap fun p => leafChars p.1 p.2) ++
    tagAfter "" ('/' :: label.toList)

theorem meetAll_flat (label : String) (pairs : List (String × String)) :
    (flat label pairs).meetAll [] = [] := by
  have hleaves : ∀ pairs : List (String × String),
      meetAllList [] (pairs.map fun p => leaf p.1 p.2) = [] := by
    intro pairs
    induction pairs with
    | nil => rfl
    | cons p pairs ih =>
      have hleaf : (leaf p.1 p.2).meetAll [] = [] := by
        unfold leaf textNodes
        split <;> rfl
      rw [List.map_cons, meetAllList, hleaf, ih]
  exact hleaves pairs

/-- A flat document is written as its label around one leaf for each pair. -/
theorem toList_flat (label : String) (pairs : List (String × String)) :
    (flat label pairs).written.toList = flatChars label pairs := by
  have hdeclared : Prefixes.declarations [] = "" := rfl
  have hleaves := toList_leaves pairs
  unfold Node.written
  simp only [meetAll_flat, hdeclared]
  unfold flatChars flat
  cases pairs with
  | nil => simp [Node.writtenWith, Prefixes.qualify, Name.plain, tagAfter]
  | cons p pairs =>
    rw [List.map_cons] at hleaves ⊢
    simp [Node.writtenWith, Prefixes.qualify, Name.plain, tagAfter, hleaves]

/-- What can be sent holds no carriage return. -/
theorem return_notMem_flatChars (h : Sendable label pairs) : '\r' ∉ flatChars label pairs := by
  have hstart : ∀ {label : String}, isName label.toList = true → '\r' ∉ label.toList :=
    fun hname => return_notMem_label (isLabel_of_isName hname)
  have hempty : ∀ {label : String}, isName label.toList = true →
      '\r' ∉ tagAfter "" (label.toList ++ [' ', '/']) := by
    intro label hname
    exact return_notMem_tagAfter (by decide) (by simp [hstart hname])
  have hleaf : ∀ p ∈ pairs, '\r' ∉ leafChars p.1 p.2 := by
    intro p hp
    have hname := h.labels p hp
    unfold leafChars
    split
    · exact hempty hname
    · rw [List.mem_append, not_or]
      exact ⟨return_notMem_tagAfter (by decide) (hstart hname),
        return_notMem_tagAfter (return_notMem_escapeText (h.returns p hp)) (by simp [hstart hname])⟩
  unfold flatChars
  split
  · exact hempty h.label
  · simp only [List.mem_append, List.mem_flatMap, not_or, not_exists, not_and]
    exact ⟨⟨return_notMem_tagAfter (by decide) (hstart h.label), hleaf⟩,
      return_notMem_tagAfter (by decide) (by simp [hstart h.label])⟩

/-- A flat element begins with its tag. -/
theorem flatChars_begin (pairs : List (String × String)) (h : isName label.toList = true) :
    ∃ c rest, flatChars label pairs = '<' :: c :: rest ∧ isNameStart c = true := by
  cases hlabel : label.toList with
  | nil =>
    rw [hlabel] at h
    cases h
  | cons c cs =>
    rw [hlabel, isName, Bool.and_eq_true] at h
    refine ⟨c, ?_, ?_, h.1⟩
    · exact if pairs = [] then cs ++ [' ', '/'] ++ ['>']
        else cs ++ ['>'] ++ (pairs.flatMap fun p => leafChars p.1 p.2) ++
          tagAfter "" ('/' :: label.toList)
    · unfold flatChars
      split <;> simp [tagAfter, hlabel]

/-! ## The tree of a flat element -/

theorem resolveTag_plain (hlabel : isName label.toList = true) :
    resolveTag [] label.toList (spelled []) = some (⟨.plain label, []⟩, []) := by
  have hname : elementName? [] label.toList = some (.plain label) := by
    rw [elementName?, splitName_of_isName hlabel]
    simp [Name.plain]
  show (elementName? [] label.toList).bind (fun name => some ((⟨name, []⟩ : Tag), [])) = _
  rw [hname]
  rfl

/-- An element that holds only text is added as it stands. -/
theorem adds_leaf (hlabel : isName label.toList = true) (htext : IsText text) :
    Adds [] (leafChars label text) [leaf label text] := by
  have hblank : IsText "" := by simp [IsText]
  have htag := resolveTag_plain hlabel
  have hnodes : textNodes "" = [] := if_pos rfl
  unfold leafChars leaf
  by_cases hempty : text = ""
  · have h := adds_emptyElement hblank (isLabel_of_isName hlabel) spells_nil htag .spaced
    rw [if_pos hempty, hempty, hnodes]
    simpa [escapeText_empty, hnodes] using h
  · have h := adds_element hblank htext (isLabel_of_isName hlabel) spells_nil
      htag adds_nil ready_nil
    rw [if_neg hempty]
    simpa [escapeText_empty, hnodes] using h

/-- Leaves are read one by one. -/
theorem adds_leaves : ∀ {pairs : List (String × String)}, (∀ p ∈ pairs, isName p.1.toList = true) →
    (∀ p ∈ pairs, IsText p.2) →
      Adds [] (pairs.flatMap fun p => leafChars p.1 p.2) (pairs.map fun p => leaf p.1 p.2)
  | [], _, _ => adds_nil
  | p :: pairs, hlabels, htexts => by
    obtain ⟨hlabel, hlabels⟩ := List.forall_mem_cons.1 hlabels
    obtain ⟨htext, htexts⟩ := List.forall_mem_cons.1 htexts
    have hfirst : Adds [] (leafChars p.1 p.2) ([] ++ [leaf p.1 p.2]) := adds_leaf hlabel htext
    rw [List.flatMap_cons, List.map_cons]
    exact hfirst.append (adds_leaves hlabels htexts)

/-- The tokens of a flat element make the element. -/
theorem build_flat (h : Sendable label pairs) :
    ∃ ts, tokens (flatChars label pairs) = some ts ∧ NoEntities ts ∧
      build (.empty false) [] ts = some (flat label pairs) := by
  have hblank : IsText "" := by simp [IsText]
  have hlabel := isLabel_of_isName h.label
  have htag := resolveTag_plain h.label
  unfold flatChars
  by_cases hpairs : pairs = []
  · obtain ⟨ps, raws, hps, hraws, hstart⟩ := tokenizes_start hblank hlabel spells_nil .spaced
    rw [escapeText_empty, List.append_nil] at hstart
    rw [if_pos hpairs]
    refine ⟨_, hstart.tokens, noEntities_textToken hps _, ?_⟩
    rw [textToken, if_pos rfl, List.nil_append, build, attributeValues_of_is hraws, hpairs]
    simp only [Option.bind_eq_bind, Option.bind_some, htag]
    rfl
  · obtain ⟨ps, raws, hps, hraws, hstart⟩ := tokenizes_start hblank hlabel spells_nil .plain
    obtain ⟨qs, hqs, hfinish⟩ := tokenizes_finish hblank hlabel
    obtain ⟨ts, htokens, hts, hbuild⟩ := adds_leaves h.labels h.texts
    rw [escapeText_empty, List.append_nil, List.append_nil] at hstart
    rw [escapeText_empty] at hfinish
    rw [if_neg hpairs]
    refine ⟨_, ((hstart.append htokens).append hfinish).tokens,
      ((noEntities_textToken hps _).append hts).append (noEntities_textToken hqs _), ?_⟩
    rw [textToken, if_pos rfl, textToken, if_pos rfl]
    simp only [List.nil_append, List.cons_append]
    rw [build, attributeValues_of_is hraws]
    simp only [Option.bind_eq_bind, Option.bind_some, htag, Bool.false_eq_true, if_false]
    rw [hbuild _ _ _ _ _ _ ready_nil, List.append_nil, build, if_pos rfl, List.reverse_reverse]
    rfl

/-! ## The document of a flat element -/

section Begin

variable {c : Char}

theorem isNameStart_marks (hc : isNameStart c = true) : c ≠ '?' ∧ c ≠ '!' ∧ 0 < c.toNat := by
  refine ⟨?_, ?_, Nat.pos_of_ne_zero ?_⟩
  · rintro rfl
    exact absurd hc (by decide)
  · rintro rfl
    exact absurd hc (by decide)
  · intro hzero
    have hnull : c = Char.ofNat 0 := by
      rw [← hzero, Char.ofNat_toNat]
    rw [hnull] at hc
    exact absurd hc (by decide)

theorem after_begin {mark : List Char} {d : Char} (hd : c ≠ d) (rest : List Char) :
    Doctype.after? ('<' :: d :: mark) ('<' :: c :: rest) = none := by
  refine if_neg fun h => ?_
  rw [List.length_cons, List.length_cons, List.take_succ_cons, List.take_succ_cons] at h
  exact hd (List.cons.inj (List.cons.inj h).2).1

/-- A document that begins with a tag has no declaration. -/
theorem declaration_begin (hc : isNameStart c = true) (rest : List Char) :
    declaration? ('<' :: c :: rest) = some ({}, '<' :: c :: rest) := by
  have hafter : Doctype.after? "<?xml".toList ('<' :: c :: rest) = none :=
    after_begin (isNameStart_marks hc).1 rest
  rw [declaration?, hafter]

/-- A document that begins with a tag has nothing before its root. -/
theorem prolog_begin (hc : isNameStart c = true) (fuel : Nat) (rest : List Char) :
    prolog? false (fuel + 1) none ('<' :: c :: rest) = some (.empty false, '<' :: c :: rest) := by
  obtain ⟨hquery, hbang, -⟩ := isNameStart_marks hc
  have hskip : Doctype.skipSpace ('<' :: c :: rest) = '<' :: c :: rest := rfl
  have hafter : Doctype.after? "<!DOCTYPE".toList ('<' :: c :: rest) = none :=
    after_begin hbang rest
  unfold prolog?
  simp only [hskip]
  split
  · rename_i heq
    exact absurd (List.cons.inj (List.cons.inj heq).2).1 hquery
  · rename_i heq
    exact absurd (List.cons.inj (List.cons.inj heq).2).1 hbang
  · rw [hafter]
    rfl

/-- Bytes that begin with a tag in UTF-8 are those of UTF-8. -/
theorem detect_begin {b : UInt8} (hb : b ≠ 0) (bs : List UInt8) :
    detect (0x3c :: b :: bs) = (.utf8, 0x3c :: b :: bs) := by
  unfold detect
  split
  case h_5 =>
    rename_i heq
    exact absurd (List.cons.inj (List.cons.inj heq).2).1 hb
  case h_6 => rfl
  all_goals
    rename_i heq
    exact absurd (List.cons.inj heq).1 (by decide)

end Begin

/-- The characters of a flat element are read as the element. -/
theorem readAfterDeclaration_flat (h : Sendable label pairs) :
    readAfterDeclaration false (flatChars label pairs) = some (flat label pairs) := by
  obtain ⟨c, rest, hbegin, hc⟩ := flatChars_begin pairs h.label
  obtain ⟨ts, htokens, hts, hbuild⟩ := build_flat h
  rw [hbegin] at htokens ⊢
  unfold readAfterDeclaration
  rw [prolog_begin hc, Option.bind_eq_bind, Option.bind_some]
  simp only [Option.bind_eq_bind, htokens, Option.bind_some, expandTokens_of_noEntities hts]
  exact hbuild

theorem charsOf_utf8Bytes (s : String) : charsOf .utf8 (utf8Bytes s) = s.toList := by
  have hread : Charset.utf8.read (utf8Bytes s) = s.toList.map some := Utf8.read_encode s.toList
  rw [charsOf, hread, List.map_map]
  exact List.map_id s.toList

/-- A flat document is taken for UTF-8 without a mark in front. -/
theorem detect_flat (h : Sendable label pairs) :
    detect (utf8Bytes (flat label pairs).written) =
      (.utf8, utf8Bytes (flat label pairs).written) := by
  obtain ⟨c, rest, hbegin, hc⟩ := flatChars_begin pairs h.label
  obtain ⟨b, bs, hbytes, hb⟩ := Utf8.encodeChar_head (isNameStart_marks hc).2.2
  have hall : utf8Bytes (flat label pairs).written = 0x3c :: b :: (bs ++ Utf8.encode rest) := by
    rw [utf8Bytes, toList_flat, hbegin, Utf8.encode, List.flatMap_cons, List.flatMap_cons, hbytes]
    rfl
  rw [hall]
  exact detect_begin hb _

/-- The bytes of a flat element are read as the element, whatever charsets are known. -/
theorem readBytes_flat (codecs : Codecs) (h : Sendable label pairs) :
    readBytes (utf8Bytes (flat label pairs).written) codecs = .ok (flat label pairs) := by
  obtain ⟨c, rest, hbegin, hc⟩ := flatChars_begin pairs h.label
  have hdeclaration : declaration? (flatChars label pairs) = some ({}, flatChars label pairs) := by
    rw [hbegin]
    exact declaration_begin hc rest
  unfold readBytes
  simp only [detect_flat h, charsOf_utf8Bytes, toList_flat,
    Text.unifyLineEnds_eq_self.2 (return_notMem_flatChars h), hdeclaration]
  rw [pure_bind, readAfterDeclaration_flat h]

theorem withoutMarks_leaf (label text : String) :
    (leaf label text).withoutMarks = leaf label text := by
  unfold leaf textNodes
  split <;> simp [Node.withoutMarks, withoutMarksList, joinText]

/-- A flat element holds no comments and instructions. -/
theorem withoutMarks_flat (label : String) (pairs : List (String × String)) :
    (flat label pairs).withoutMarks = flat label pairs := by
  have hleaves : withoutMarksList (pairs.map fun p => leaf p.1 p.2) =
      pairs.map fun p => leaf p.1 p.2 := by
    induction pairs with
    | nil => simp [withoutMarksList]
    | cons p pairs ih =>
      have hleaf := withoutMarks_leaf p.1 p.2
      rw [List.map_cons]
      unfold leaf at hleaf ih ⊢
      rw [withoutMarksList, hleaf, ih]
  rw [flat, Node.withoutMarks, hleaves]

/-! ## Plain text in an element -/

/-- The characters of an element around a text that is put there as it is. -/
def docChars (text : String) : List Char := tagAfter "" "doc".toList ++ tagAfter text "/doc".toList

/-- The tokens of an element around a text. -/
def docTokens (text : String) (ps : List Part) : List Token :=
  .tag (.start "doc".toList [] false) :: (textToken text ps ++ [.tag (.finish "doc".toList)])

theorem toList_doc (text : String) : ("<doc>" ++ text ++ "</doc>").toList = docChars text := by
  simp [docChars, tagAfter]

theorem exists_textToken {ts : List Token} (htext : '&' ∉ text.toList)
    (h : (flushText text.toList.reverse []).mapM Chunk.token? = some ts) :
    ∃ ps, List.Forall₂ Part.Is ps text.toList ∧ ts = textToken text ps := by
  by_cases hempty : text = ""
  · subst hempty
    exact ⟨[], .nil, (Option.some.inj h).symm⟩
  · have hne : text.toList.reverse.isEmpty = false := by simpa using hempty
    rw [flushText, if_neg (by simp [hne]), List.reverse_reverse, List.mapM_cons] at h
    obtain ⟨t, ht, hts⟩ := Option.bind_eq_some_iff.1 h
    obtain rfl := Option.some.inj hts
    rw [Chunk.token?] at ht
    split at ht
    · cases ht
    · obtain ⟨ps, hps, rfl⟩ := Option.map_eq_some_iff.1 ht
      refine ⟨ps, is_of_partsFrom htext hps, ?_⟩
      rw [textToken, if_neg hempty]
      rfl

theorem chunks_doc (htext : '<' ∉ text.toList) :
    chunks (docChars text) =
      some (.tag "doc".toList :: (flushText text.toList.reverse [] ++ [.tag "/doc".toList])) := by
  have hstart :=
    @chunksFrom_tagAfter [] "oc".toList (tagAfter text "/doc".toList) 'd' (by simp) (by decide)
    (passes_of_plain (List.all_iff_forall_prop.1 (by decide)))
  have hend := @chunksFrom_tagAfter text.toList "doc".toList [] '/' htext (by decide)
    (passes_of_plain (List.all_iff_forall_prop.1 (by decide)))
  have hflush : flushText text.toList.reverse [.tag "/doc".toList] =
      flushText text.toList.reverse [] ++ [.tag "/doc".toList] := by
    unfold flushText
    split <;> rfl
  rw [← hflush]
  exact hstart.trans (congrArg (Option.map _) hend)

/-- A text without brackets and references is one token between tags. -/
theorem tokens_doc (htext : '<' ∉ text.toList) (hrefs : '&' ∉ text.toList) {ts : List Token}
    (h : tokens (docChars text) = some ts) :
    ∃ ps, List.Forall₂ Part.Is ps text.toList ∧ ts = docTokens text ps := by
  have hstart : Chunk.token? (.tag "doc".toList) = some (.tag (.start "doc".toList [] false)) := rfl
  have hfinish : Chunk.token? (.tag "/doc".toList) = some (.tag (.finish "doc".toList)) := rfl
  unfold tokens at h
  rw [chunks_doc htext, Option.bind_eq_bind, Option.bind_some, List.mapM_cons, hstart] at h
  simp only [List.mapM_append, List.mapM_cons, List.mapM_nil, hfinish,
    Option.bind_eq_bind, Option.bind_some, Option.pure_def] at h
  obtain ⟨us, hus, hts⟩ := Option.bind_eq_some_iff.1 h
  obtain ⟨vs, hvs, hus⟩ := Option.bind_eq_some_iff.1 hus
  obtain ⟨ps, hps, rfl⟩ := exists_textToken hrefs hvs
  refine ⟨ps, hps, ?_⟩
  rw [← Option.some.inj hts, ← Option.some.inj hus, docTokens]

/-- From these tokens a single leaf is built. -/
theorem build_doc {ps : List Part} (hps : List.Forall₂ Part.Is ps text.toList) :
    build (.empty false) [] (docTokens text ps) = some (leaf "doc" text) := by
  have htag : resolveTag [] "doc".toList (spelled []) = some (⟨.plain "doc", []⟩, []) :=
    resolveTag_plain (by decide)
  have hraws : List.Forall₂ RawAttribute.Is [] [] := .nil
  rw [docTokens, build, attributeValues_of_is hraws]
  simp only [Option.bind_eq_bind, Option.bind_some, htag, Bool.false_eq_true, if_false]
  rw [build_text hps ready_nil, List.append_nil, build, if_pos rfl, reverse_textNodes]
  rfl

/-- What is read as an element around a text without marks holds the text. -/
theorem readText_doc (h : ∀ c ∈ text.toList, c ≠ '<' ∧ c ≠ '&' ∧ c ≠ '\r') {root : Node}
    (hread : readText ("<doc>" ++ text ++ "</doc>") = some root) : root = leaf "doc" text := by
  have hreturn : '\r' ∉ docChars text := by
    rw [docChars, List.mem_append, not_or]
    exact ⟨return_notMem_tagAfter (by decide) (by decide),
      return_notMem_tagAfter (fun hmem => (h _ hmem).2.2 rfl) (by decide)⟩
  have hbegin : docChars text = '<' :: 'd' :: ("oc>".toList ++ tagAfter text "/doc".toList) := rfl
  have hmark : withoutMark (docChars text) = docChars text := by
    rw [hbegin]
    rfl
  have hdeclaration : declaration? (docChars text) = some ({}, docChars text) := by
    rw [hbegin]
    exact declaration_begin (by decide) _
  have hprolog : prolog? false ((docChars text).length + 1) none (docChars text) =
      some (.empty false, docChars text) := by
    rw [hbegin]
    exact prolog_begin (by decide) _ _
  unfold readText at hread
  rw [toList_doc, hmark] at hread
  simp only [Text.unifyLineEnds_eq_self.2 hreturn, hdeclaration, Option.bind_eq_bind,
    Option.bind_some] at hread
  unfold readAfterDeclaration at hread
  rw [hprolog, Option.bind_eq_bind, Option.bind_some, Option.bind_eq_bind] at hread
  obtain ⟨ts, hts, hbuild⟩ := Option.bind_eq_some_iff.1 hread
  obtain ⟨ps, hps, rfl⟩ :=
    tokens_doc (fun hmem => (h _ hmem).1 rfl) (fun hmem => (h _ hmem).2.1 rfl) hts
  have hno : NoEntities (docTokens text ps) := by
    intro qs hqs
    rcases List.mem_cons.1 hqs with hq | hq
    · cases hq
    · exact noEntities_textToken hps _ qs hq
  rw [expandTokens_of_noEntities hno, Option.bind_some, build_doc hps] at hbuild
  exact (Option.some.inj hbuild).symm

end Wadl.Xml
