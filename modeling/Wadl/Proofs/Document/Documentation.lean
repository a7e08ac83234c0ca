import Wadl.Proofs.Document.Placeholders
import Wadl.Proofs.Document.Rereading.Params
import Wadl.Proofs.Document.Written
import Wadl.Proofs.Xml.Markup

/-!
# Documentation read back

The content of documentation is markup without the namespace of descriptions. It is written as it
is, inside an element that declares the namespace of the documentation, so it is read back tidy, and
with the elements that have no namespace in that one (`readText_doc`). The documentation is the same
again just if that changes nothing (`render_doc_reads_back`).
-/

namespace Wadl

open Reader Outline

/-! ## Pieces of a document -/

namespace Xml

/-- A piece is another one, or stands in it at any depth. -/
inductive Node.Within : Node → Node → Prop where
  | self {n : Node} : n.Within n
  | inside {n m : Node} {tag : Tag} {content : List Node} (mem : m ∈ content) (h : n.Within m) :
      n.Within (.element tag content)

/-- What holds of a tree holds of the pieces in it. -/
theorem Node.All.within {T : Tag → Prop} {V : String → Prop} {M : Prop}
    {n m : Node} (h : m.All T V M) (hn : n.Within m) : n.All T V M := by
  induction hn with
  | self => exact h
  | inside hmem _ ih =>
    cases h with
    | element _ hinside => exact ih (hinside _ hmem)

/-- A document that is read from bytes is proper, whatever charset it declares. -/
theorem proper_readBytes {codecs : Codecs} {bytes : List UInt8} {root : Node}
    (h : readBytes bytes codecs = .ok root) : root.Proper := by
  have hend : ∀ {standalone : Bool} {chars : List Char} {found : Node},
      readAfterDeclaration standalone chars = some found → Except.ok (ε := ReadError) found =
        .ok root → root.Proper :=
    fun hfound h => Except.ok.inj h ▸ proper_readAfterDeclaration hfound
  unfold readBytes at h
  simp only [pure_bind] at h
  split at h
  · cases h
  · split at h
    · -- the declaration names no charset
      split at h
      · exact hend ‹_› h
      · cases h
    · obtain ⟨charset, -, h⟩ := Result.bind_ok.1 h
      split at h
      · -- it names the charset that was detected
        split at h
        · exact hend ‹_› h
        · cases h
      · split at h
        · split at h
          · exact hend ‹_› h
          · cases h
        · cases h

end Xml

/-! ## The markup of documentation -/

/-- A name without the namespace of descriptions. -/
def plainName (n : Xml.Name) : Xml.Name := if n.space = some wadlSpace then .plain n.label else n

mutual

/-- Markup without the namespace of descriptions is the markup with its names renamed. -/
theorem plainMarkup_eq_rename : ∀ n : Xml.Node, plainMarkup n = n.rename plainName
  | .element tag content => by
    have htag : (if tag.name.space =
        some wadlSpace then ⟨.plain tag.name.label, tag.attributes⟩ else tag) =
        (⟨plainName tag.name, tag.attributes⟩ : Xml.Tag) := by
      unfold plainName
      split <;> rfl
    rw [plainMarkup, Xml.Node.rename, htag, plainMarkupList_eq_rename content]
  | .text _ => rfl
  | .comment _ => rfl
  | .instruction _ => rfl

theorem plainMarkupList_eq_rename :
    ∀ content : List Xml.Node, plainMarkupList content = Xml.renameList plainName content
  | [] => rfl
  | n :: rest => by
      rw [plainMarkupList, Xml.renameList, plainMarkup_eq_rename n, plainMarkupList_eq_rename rest]

end

/-- Without comments and instructions, the content of documentation is what is written for its
pieces. -/
theorem markupText_eq_joined {T : Xml.Tag → Prop} {V : String → Prop} :
    ∀ {content : List Xml.Node}, (∀ n ∈ content, n.All T V False) →
      markupText true content = Xml.joined Xml.Node.written (Xml.renameList plainName content)
  | [], _ => rfl
  | n :: rest, h => by
    obtain ⟨hn, hrest⟩ := List.forall_mem_cons.1 h
    rw [Xml.renameList, Xml.joined_cons, ← markupText_eq_joined hrest]
    cases hn with
    | text hs => rfl
    | element htag hinside => rw [markupText, plainMarkup_eq_rename]
    | comment hnone => exact hnone.elim
    | instruction hnone => exact hnone.elim

section Names

variable {n : Xml.Name} {space : String}

/-- A name is of descriptions if it is in their namespace or in none. -/
theorem isWadl_iff : n.isWadl = true ↔ n.space = none ∨ n.space = some wadlSpace := by
  simp [Xml.Name.isWadl]

theorem plainName_proper (h : n.Proper) : (plainName n).Proper := by
  unfold plainName
  split
  · exact ⟨h.label, nofun⟩
  · exact h

/-- A proper name stays proper in another namespace. -/
theorem adopt_proper (h : n.Proper) (hspace : Xml.IsSpaceName space) :
    (n.adopt (some space)).Proper := by
  refine ⟨h.label, fun s hs => ?_⟩
  cases hn : n.space with
  | none =>
    rw [Xml.Name.adopt, hn] at hs
    rwa [← Option.some.inj hs]
  | some other =>
    rw [Xml.Name.adopt, hn] at hs
    exact Option.some.inj hs ▸ h.space other hn

/-- What the namespace of descriptions adopts is what it was taken from. -/
theorem plainName_adopt_wadl (n : Xml.Name) :
    plainName ((plainName n).adopt (some wadlSpace)) = plainName n := by
  obtain ⟨_ | other, label⟩ := n
  · simp [plainName, Xml.Name.adopt, Xml.Name.plain]
  · by_cases hwadl : other = wadlSpace <;> simp [plainName, hwadl, Xml.Name.adopt, Xml.Name.plain]

/-- What another namespace adopts is in that one. -/
theorem plainName_adopt (hspace : space ≠ wadlSpace) (n : Xml.Name) :
    plainName ((plainName n).adopt (some space)) = (plainName n).adopt (some space) := by
  obtain ⟨_ | other, label⟩ := n
  · simp [plainName, hspace, Xml.Name.adopt]
  · by_cases hwadl : other = wadlSpace <;>
      simp [plainName, hspace, hwadl, Xml.Name.adopt, Xml.Name.plain]

/-- What belongs to descriptions still does once it is adopted. -/
theorem foreignSpace_adopt (h : foreignSpace n = none) :
    foreignSpace ((plainName n).adopt (some wadlSpace)) = none := by
  obtain ⟨_ | other, label⟩ := n
  · simp [foreignSpace, plainName, Xml.Name.adopt, Xml.Name.isWadl]
  · by_cases hwadl : other = wadlSpace
    · simp [foreignSpace, plainName, hwadl, Xml.Name.adopt, Xml.Name.plain, Xml.Name.isWadl]
    · simp [foreignSpace, hwadl, Xml.Name.isWadl] at h

/-- A namespace adopts just the names that are in none or in the one of descriptions. -/
theorem adopt_plainName_eq_self :
    (plainName n).adopt (some space) = plainName n ↔ n.isWadl = false := by
  rw [← Bool.not_eq_true, isWadl_iff, not_or]
  obtain ⟨_ | other, label⟩ := n
  · simp [plainName, Xml.Name.adopt]
  · by_cases hwadl : other = wadlSpace <;> simp [plainName, hwadl, Xml.Name.adopt, Xml.Name.plain]

end Names

/-! ## The element that is read back -/

section Reread

variable {e : Element}

/-- The tags of an element are proper, its texts can stand in a document, and it holds no comments
and instructions. -/
abbrev Reader.Element.Clean (e : Element) : Prop := e.node.All Xml.Tag.Proper Xml.IsPiece False

theorem Reader.Element.Clean.tag (he : e.Clean) : e.tag.Proper := by
  cases he with
  | element htag _ => exact htag

theorem Reader.Element.Clean.inside (he : e.Clean) :
    ∀ n ∈ e.content, n.All Xml.Tag.Proper Xml.IsPiece False := by
  cases he with
  | element _ hinside => exact hinside

/-- The markup of documentation, tidy. -/
def tidyMarkup (e : Element) : List Xml.Node := Xml.tidyList "" (Xml.renameList plainName e.content)

/-- The content of clean documentation, renamed, is proper. -/
theorem Reader.Element.Clean.markup (he : e.Clean) :
    ∀ n ∈ Xml.renameList plainName e.content, n.All Xml.Tag.Proper Xml.IsPiece False := by
  rw [Xml.renameList_eq_map, List.forall_mem_map]
  exact fun n hn => (he.inside n hn).rename fun tag htag =>
    ⟨plainName_proper htag.name, htag.attributes, htag.distinct⟩

/-- The content of clean documentation is tidy where texts are joined and names are renamed. -/
theorem Reader.Element.Clean.tidy (he : e.Clean) :
    Xml.Tidy (tidyMarkup e) ∧ ∀ n ∈ tidyMarkup e, n.All Xml.Tag.Proper Xml.IsPiece False :=
  Xml.tidy_tidyList (by simp [Xml.IsText]) he.markup

/-- Documentation is kept as its content is written, with names renamed. -/
theorem content_readDoc (he : e.Clean) :
    (readDoc e).content = Xml.joined Xml.Node.written (Xml.renameList plainName e.content) :=
  markupText_eq_joined he.inside

/-- What is written for documentation is read as what is written for its tidy markup. -/
theorem unified_content (he : e.Clean) :
    Xml.unified (readDoc e).content = Xml.joined Xml.Node.written (tidyMarkup e) := by
  rw [content_readDoc he, Xml.unified_markup he.markup, tidyMarkup]

/-- Joining texts keeps the names. -/
theorem names_tidyMarkup (e : Element) :
    Xml.namesList (tidyMarkup e) = (Xml.namesList e.content).map plainName := by
  rw [tidyMarkup, Xml.namesList_tidyList, Xml.namesList_renameList]

/-- The tags of children are those of elements in the content. -/
theorem mem_childTags {content : List Xml.Node} {tag : Xml.Tag} (h : tag ∈ Xml.childTags content) :
    ∃ inside, .element tag inside ∈ content := by
  obtain ⟨n, hn, htag⟩ := List.mem_filterMap.1 h
  split at htag
  · rw [← Option.some.inj htag]
    exact ⟨_, hn⟩
  · cases htag

/-- The namespace of documentation is one that can be declared, and not the one of descriptions. -/
theorem space_readDoc (he : e.Clean) {space : String} (h : (readDoc e).xmlns = some space) :
    Xml.IsSpaceName space ∧ space ≠ wadlSpace := by
  have hforeign : ∀ n : Xml.Name, n.Proper → foreignSpace n = some space →
      Xml.IsSpaceName space ∧ space ≠ wadlSpace := by
    intro n hn hspace
    unfold foreignSpace at hspace
    split at hspace
    · cases hspace
    · rename_i hwadl
      refine ⟨hn.space space hspace, ?_⟩
      rintro rfl
      exact hwadl (isWadl_iff.2 (Or.inr hspace))
  obtain ⟨x, hx, hspace⟩ := List.exists_of_findSome?_eq_some h
  obtain ⟨tag, htag, rfl⟩ := List.mem_map.1 hx
  refine hforeign tag.name ?_ hspace
  rcases List.mem_cons.1 htag with rfl | htag
  · exact he.tag.name
  · obtain ⟨inside, hmem⟩ := mem_childTags htag
    cases he.inside _ hmem with
    | element hproper _ => exact hproper.name

/-- The attributes of documentation, its namespace apart. -/
def docAttributes (d : Doc) : List (String × String) :=
  present [("title", d.title), ("xml:lang", d.lang)]

/-- The bindings inside documentation. -/
def docBindings (d : Doc) : Xml.Bindings := declaredBindings d.xmlns Xml.rootBindings

/-- The element that documentation is read back as. -/
def rereadDoc (e : Element) : Element where
  tag :=
    ⟨⟨(docBindings (readDoc e)).default?, ElementKind.doc.word⟩, named (docAttributes (readDoc e))⟩
  content := Xml.renameList (Xml.Name.adopt (docBindings (readDoc e)).default?) (tidyMarkup e)

/-- The default namespace in documentation is the one that it declares, or that of descriptions. -/
theorem default_docBindings (he : e.Clean) :
    (docBindings (readDoc e)).default? = some ((readDoc e).xmlns.getD wadlSpace) := by
  cases hspace : (readDoc e).xmlns with
  | none =>
    rw [docBindings, hspace]
    rfl
  | some space =>
    have hfilled := (space_readDoc he hspace).1.filled
    rw [docBindings, hspace]
    simp [declaredBindings, Xml.Bindings.default?, hfilled]

/-- The attributes of documentation are written soundly. -/
theorem soundAttributes_doc (he : e.Clean) : SoundAttributes (docAttributes (readDoc e)) := by
  have hattribute : ∀ name s, e.tag.attribute? name = some s → Xml.IsText s := by
    intro name s hs
    exact (he.tag.attributes _ (mem_of_lookup hs)).2.2
  refine soundAttributes_present (by decide : Named ["title", "xml:lang"]) fun s hs => ?_
  have hcases : some s = (readDoc e).title ∨ some s = (readDoc e).lang := by
    simpa using hs
  rcases hcases with h | h
  · exact hattribute _ s h.symm
  · exact hattribute _ s h.symm

/-- Documentation is written with its attributes, and with its content as it is. -/
theorem render_doc (d : Doc) :
    Render.doc d =
      .verbatim ElementKind.doc.word (withDefault d.xmlns (docAttributes d)) d.content := by
  unfold Render.doc withDefault docAttributes
  cases d.xmlns <;> rfl

/-! ## The document -/

/-- The characters of documentation after a line end, with those of its content. -/
def docChars (d : Doc) (content : List Char) : List Char :=
  Xml.tagAfter (gap 1) (startChars ElementKind.doc.word (withDefault d.xmlns (docAttributes d))) ++
    content ++ Xml.tagAfter "" ('/' :: ElementKind.doc.word.toList)

/-- The document of documentation in a root, as characters. -/
theorem toList_docDocument (d : Doc) :
    (root [Render.doc d]).document.toList =
      declaration ++ '\n' :: (rootChars (docChars d d.content.toList) ++ ['\n']) := by
  have hcontent : Xml.tagAfter d.content ('/' :: ElementKind.doc.word.toList) =
      d.content.toList ++ Xml.tagAfter "" ('/' :: ElementKind.doc.word.toList) := by
    simp [Xml.tagAfter]
  have hwritten : (root [Render.doc d]).written "" 0 = rootChars (docChars d d.content.toList) := by
    rw [root, written, if_neg (by simp), writtenList, writtenList, List.append_nil,
      render_doc, written, hcontent,
      rootChars, docChars, List.append_assoc (Xml.tagAfter (gap 1) _)]
  rw [toList_document, hwritten]

/-- The attributes of documentation have labels as names and texts as values. -/
theorem labels_doc (he : e.Clean) :
    ∀ a ∈ withDefault (readDoc e).xmlns (docAttributes (readDoc e)),
      Xml.isLabel a.1.toList = true ∧ Xml.IsText a.2 := by
  refine List.forall_mem_append.2 ⟨fun a ha => ?_, (soundAttributes_doc he).readable⟩
  obtain ⟨space, hspace, rfl⟩ := List.mem_map.1 ha
  exact ⟨(by decide : Xml.isLabel "xmlns".toList = true),
    (space_readDoc he (Option.mem_toList.1 hspace)).1.text⟩

/-- Line ends are unified in the content. -/
theorem unifyLineEnds_docChars (he : e.Clean) (cs : List Char) :
    Text.unifyLineEnds (rootChars (docChars (readDoc e) cs) ++ ['\n']) =
      rootChars (docChars (readDoc e) (Text.unifyLineEnds cs)) ++ ['\n'] := by
  have hempty : '\r' ∉ ("" : String).toList := by decide
  have hroot : '\r' ∉ Xml.tagAfter ""
      (startChars ElementKind.application.word [("xmlns", wadlSpace)]) :=
    Xml.return_notMem_tagAfter hempty
      (return_notMem_startChars (fun a ha => (rootAttributes_labels a ha).1) .application)
  have hdoc : '\r' ∉ Xml.tagAfter (gap 1)
      (startChars ElementKind.doc.word
        (withDefault (readDoc e).xmlns (docAttributes (readDoc e)))) :=
    Xml.return_notMem_tagAfter (return_notMem_gap 1)
      (return_notMem_startChars (fun a ha => (labels_doc he a ha).1) .doc)
  have hend : '\r' ∉ Xml.tagAfter "" ('/' :: ElementKind.doc.word.toList) ++
      (Xml.tagAfter (gap 0) ('/' :: ElementKind.application.word.toList) ++ ['\n']) := by decide
  have hsplit : ∀ cs, rootChars (docChars (readDoc e) cs) ++ ['\n'] =
      Xml.tagAfter "" (startChars ElementKind.application.word [("xmlns", wadlSpace)]) ++
        (Xml.tagAfter (gap 1)
          (startChars ElementKind.doc.word
            (withDefault (readDoc e).xmlns (docAttributes (readDoc e)))) ++
        (cs ++ (Xml.tagAfter "" ('/' :: ElementKind.doc.word.toList) ++
          (Xml.tagAfter (gap 0) ('/' :: ElementKind.application.word.toList) ++ ['\n'])))) := by
    intro cs
    simp only [rootChars, docChars, List.append_assoc]
  have hhead : (Xml.tagAfter "" ('/' :: ElementKind.doc.word.toList) ++
      (Xml.tagAfter (gap 0) ('/' :: ElementKind.application.word.toList) ++ ['\n'])).head? ≠
        some '\n' := by
    decide
  rw [hsplit, hsplit, Text.unifyLineEnds_append_of_notMem hroot,
    Text.unifyLineEnds_append_of_notMem hdoc,
    Text.unifyLineEnds_append hhead, Text.unifyLineEnds_eq_self.2 hend]

theorem isDeclarable_default {space : String} (h : Xml.IsSpaceName space)
    (hxml : space ≠ Xml.xmlNamespace) : Xml.isDeclarable [] space = true := by
  simp only [Xml.isDeclarable, bne, beq_eq_false_iff_ne.2 hxml, beq_eq_false_iff_ne.2 h.declares]
  simpa using h.closing

/-- The content of documentation is read again from what is kept of it. -/
theorem reads_content (he : e.Clean) :
    Xml.Reads (docBindings (readDoc e)) (Text.unifyLineEnds (readDoc e).content.toList)
      (rereadDoc e).content := by
  rw [← Xml.toList_unified, unified_content he]
  exact Xml.reads_markup he.tidy.1 he.tidy.2 _

/-- Documentation whose namespace can be a default one is read back. -/
theorem adds_doc (he : e.Clean) (hxml : (readDoc e).xmlns ≠ some Xml.xmlNamespace) :
    Xml.Adds Xml.rootBindings (docChars (readDoc e) (Text.unifyLineEnds (readDoc e).content.toList))
      [.text (gap 1), (rereadDoc e).node] := by
  have hspace : ∀ s, (readDoc e).xmlns = some s → Xml.isDeclarable [] s = true := by
    intro s hs
    refine isDeclarable_default (space_readDoc he hs).1 ?_
    rintro rfl
    exact hxml hs
  have hadds := (reads_content he).adds_element (isText_gap 1) (isLabel_word .doc)
    (Xml.spells_attributeChars (labels_doc he))
    (resolveTag_withDefault (soundAttributes_doc he) .doc hspace Xml.rootBindings)
  rw [escapeText_gap, textNodes_gap] at hadds
  exact hadds

/-- The document of documentation is read as a root with the documentation in it. -/
theorem readText_doc (he : e.Clean) (hxml : (readDoc e).xmlns ≠ some Xml.xmlNamespace) :
    Xml.readText (root [Render.doc (readDoc e)]).document =
      some (.element rootTag [.text (gap 1), (rereadDoc e).node, .text (gap 0)]) := by
  obtain ⟨ts, htokens, hts, hbuild⟩ := adds_doc he hxml
  obtain ⟨start, finish, hall, hread, hstart, hfinish⟩ := tokens_rootChars htokens hts
  obtain ⟨more, hmore⟩ :=
    rootChars_begin (docChars (readDoc e) (Text.unifyLineEnds (readDoc e).content.toList))
  have hlines := unifyLineEnds_docChars he (readDoc e).content.toList
  rw [hmore, List.cons_append, List.cons_append] at hlines hread
  rw [readText_declared (toList_docDocument _) hlines hread hall, List.append_assoc, hstart,
    hbuild _ _ _ _ _ _ Xml.ready_nil, List.append_nil]
  exact hfinish [.text (gap 1), (rereadDoc e).node] Xml.ready_element

/-- Documentation whose namespace is that of the prefix xml is not read back. -/
theorem readText_doc_refused (he : e.Clean) (hxml : (readDoc e).xmlns = some Xml.xmlNamespace) :
    Xml.readText (root [Render.doc (readDoc e)]).document = none := by
  obtain ⟨front, before, t, hcontent, ht, ⟨ts, htokens, hts, -⟩, -, -⟩ := reads_content he
  obtain ⟨ps, raws, hps, hraws, hopen⟩ := Xml.tokenizes_start (isText_gap 1) (isLabel_word .doc)
    (Xml.spells_attributeChars (labels_doc he)) .plain
  obtain ⟨qs, hqs, hclose⟩ := Xml.tokenizes_finish ht (isLabel_word .doc)
  have hchars : docChars (readDoc e) (Text.unifyLineEnds (readDoc e).content.toList) =
      Xml.tagAfter (gap 1)
          (startChars ElementKind.doc.word
            (withDefault (readDoc e).xmlns (docAttributes (readDoc e)))) ++
        front ++ Xml.tagAfter (Xml.escapeText t) ('/' :: ElementKind.doc.word.toList) := by
    rw [docChars, hcontent]
    simp [Xml.tagAfter]
  rw [escapeText_gap, List.append_nil] at hopen
  have hdoc := (hopen.append htokens).append hclose
  have hentities :=
    ((Xml.noEntities_textToken hps (.start ElementKind.doc.word.toList raws false)).append
      hts).append
    (Xml.noEntities_textToken hqs (.finish ElementKind.doc.word.toList))
  obtain ⟨start, finish, hall, hread, hstart, -⟩ := tokens_rootChars hdoc hentities
  obtain ⟨more, hmore⟩ :=
    rootChars_begin (docChars (readDoc e) (Text.unifyLineEnds (readDoc e).content.toList))
  have hlines := unifyLineEnds_docChars he (readDoc e).content.toList
  have hrefused : Xml.resolveTag Xml.rootBindings ElementKind.doc.word.toList
      (Xml.spelled (withDefault (readDoc e).xmlns (docAttributes (readDoc e)))) = none := by
    rw [hxml]
    rfl
  unfold startChars at hchars
  rw [← hchars, hmore, List.cons_append, List.cons_append] at hread
  rw [hmore, List.cons_append, List.cons_append] at hlines
  rw [readText_declared (toList_docDocument _) hlines hread hall]
  simp only [List.append_assoc]
  rw [hstart, Xml.build_text hps Xml.ready_nil, List.singleton_append,
    Xml.build_refused hrefused hraws]

/-! ## The documentation -/

theorem isSpaceName_wadl : Xml.IsSpaceName wadlSpace := by
  have htext : ∀ c ∈ wadlSpace.toList, Xml.isChar c = true := List.all_eq_true.1 (by decide)
  exact ⟨by decide, by decide, by decide, htext⟩

/-- Documentation that is read again is tidy and proper. -/
theorem Reader.Element.Clean.reread (he : e.Clean) :
    Xml.Tidy (rereadDoc e).content ∧ ∀ n ∈ (rereadDoc e).content,
      n.All Xml.Tag.Proper Xml.IsPiece False := by
  have hspace : Xml.IsSpaceName ((readDoc e).xmlns.getD wadlSpace) := by
    cases hxmlns : (readDoc e).xmlns with
    | none => exact isSpaceName_wadl
    | some space => exact (space_readDoc he hxmlns).1
  refine ⟨he.tidy.1.rename, ?_⟩
  rw [rereadDoc, default_docBindings he, Xml.renameList_eq_map, List.forall_mem_map]
  exact fun n hn => (he.tidy.2 n hn).rename fun tag htag =>
    ⟨adopt_proper htag.name hspace, htag.attributes, htag.distinct⟩

/-- The root that documentation stands in is read as a description with the documentation that is
read back. -/
theorem always_readDescription_doc (he : e.Clean) (base : String) (strict : Bool) :
    Always (readDescription base strict
        (Xml.Node.element rootTag [.text (gap 1), (rereadDoc e).node, .text (gap 0)]).withoutMarks)
      ⟨base, [readDoc (rereadDoc e)], [], [], [], [], [], []⟩ := by
  have hmarks : (Xml.Node.element rootTag
      [.text (gap 1), (rereadDoc e).node, .text (gap 0)]).withoutMarks =
      .element rootTag [.text (gap 1), (rereadDoc e).node, .text (gap 0)] := by
    simp [Element.node, Xml.Node.withoutMarks, Xml.withoutMarksList, Xml.joinText,
      he.reread.1.withoutMarks]
  have hitems : Always (items ⟨base, strict, ["application"]⟩ .application
      [.text (gap 1), (rereadDoc e).node, .text (gap 0)]) [(.doc, rereadDoc e)] := by
    have hlabel : (rereadDoc e).tag.name.label = ElementKind.doc.word := rfl
    simp only [items, Element.node, hlabel, if_true]
    exact (always_pure []).bind (always_pure _)
  have hroot : ¬(rootTag.name.label ≠ ElementKind.application.word ∨
    (!rootTag.name.isWadl) = true) := by decide
  rw [hmarks]
  have happ : Always (readApplication base strict
      (.element rootTag [.text (gap 1), (rereadDoc e).node, .text (gap 0)]))
      ⟨base, [readDoc (rereadDoc e)], [], [], [], [], [], []⟩ := by
    simp only [readApplication]
    rw [if_neg hroot]
    exact hitems.bind (always_pure _)
  exact happ.bind ((always_lift rfl).bind (always_pure _))

/-- Documentation that is read again has the same title and language. -/
theorem attributes_reread (e : Element) :
    (readDoc (rereadDoc e)).title = (readDoc e).title ∧ (readDoc (rereadDoc e)).lang =
      (readDoc e).lang := by
  have hnames : (([("title", (readDoc e).title), ("xml:lang", (readDoc e).lang)]).map
      (·.1)).Nodup :=
    (by decide : ["title", "xml:lang"].Nodup)
  exact ⟨attribute?_present hnames _ "title", attribute?_present hnames _ "xml:lang"⟩

/-- Renaming keeps the tags of children but for their names. -/
theorem childTags_renameList (f : Xml.Name → Xml.Name) :
    ∀ content : List Xml.Node,
      (Xml.childTags (Xml.renameList f content)).map (·.name) =
        ((Xml.childTags content).map (·.name)).map f
  | [] => rfl
  | .element tag _ :: rest => congrArg (f tag.name :: ·) (childTags_renameList f rest)
  | .text _ :: rest => childTags_renameList f rest
  | .comment _ :: rest => childTags_renameList f rest
  | .instruction _ :: rest => childTags_renameList f rest

/-- Joining texts keeps the tags of children. -/
theorem childTags_tidyList {before : String} :
    ∀ content : List Xml.Node, Xml.childTags (Xml.tidyList before content) = Xml.childTags content
  | [] => by rw [Xml.tidyList, childTags_textNodes]; rfl
  | .text s :: rest => by
    rw [Xml.tidyList]
    exact childTags_tidyList rest
  | .comment _ :: rest => by
    rw [Xml.tidyList]
    exact childTags_tidyList rest
  | .instruction _ :: rest => by
    rw [Xml.tidyList]
    exact childTags_tidyList rest
  | .element tag _ :: rest => by
    have happend : ∀ nodes, Xml.childTags (Xml.textNodes (Xml.unified before) ++ nodes) =
        Xml.childTags nodes := by
      intro nodes
      unfold Xml.childTags
      rw [List.filterMap_append]
      exact congrArg (· ++ _) (childTags_textNodes _)
    rw [Xml.tidyList, Xml.Node.tidy, happend]
    exact congrArg (tag :: ·) (childTags_tidyList rest)

/-- The namespace of documentation is read back: its own one is declared, and without one no child
has one. -/
theorem xmlns_reread (he : e.Clean) : (readDoc (rereadDoc e)).xmlns = (readDoc e).xmlns := by
  have hdefault := default_docBindings he
  cases hxmlns : (readDoc e).xmlns with
  | some space =>
    have hforeign : foreignSpace (rereadDoc e).tag.name = some space := by
      have hname : (rereadDoc e).tag.name.space = some space := by
        rw [rereadDoc, hdefault, hxmlns]
        rfl
      have hwadl : (rereadDoc e).tag.name.isWadl ≠ true := by
        rw [Ne, isWadl_iff, hname]
        simp [(space_readDoc he hxmlns).2]
      rw [foreignSpace, if_neg hwadl, hname]
    show List.findSome? id (foreignSpace (rereadDoc e).tag.name :: _) = some space
    rw [hforeign]
    rfl
  | none =>
    have hnone := List.findSome?_eq_none_iff.1 hxmlns
    have hnames : (Xml.childTags (rereadDoc e).content).map (·.name) =
        (((Xml.childTags e.content).map (·.name)).map plainName).map
          (Xml.Name.adopt (some wadlSpace)) := by
      rw [rereadDoc, hdefault, hxmlns, childTags_renameList, tidyMarkup, childTags_tidyList,
        childTags_renameList]
      rfl
    refine List.findSome?_eq_none_iff.2 fun x hx => ?_
    obtain ⟨tag, htag, rfl⟩ := List.mem_map.1 hx
    rcases List.mem_cons.1 htag with rfl | htag
    · rw [rereadDoc, hdefault, hxmlns]
      rfl
    · have hname : tag.name ∈ (Xml.childTags (rereadDoc e).content).map (·.name) :=
        List.mem_map_of_mem htag
      rw [hnames, List.map_map, List.map_map] at hname
      obtain ⟨child, hchild, heq⟩ := List.mem_map.1 hname
      have hforeign := hnone _ (List.mem_map_of_mem (List.mem_cons_of_mem _ hchild))
      rw [← heq]
      exact foreignSpace_adopt hforeign

/-- The content of documentation is read back just if it holds no carriage returns, and no elements
that its namespace adopts. -/
theorem content_reread (he : e.Clean) :
    (readDoc (rereadDoc e)).content = (readDoc e).content ↔
      '\r' ∉ (readDoc e).content.toList ∧
        ((readDoc e).xmlns = none ∨ ∀ n ∈ Xml.namesList e.content, n.isWadl = false) := by
  have hcontent : (readDoc (rereadDoc e)).content =
      Xml.joined Xml.Node.written (Xml.renameList plainName (rereadDoc e).content) :=
        markupText_eq_joined he.reread.2
  have hdefault := default_docBindings he
  cases hxmlns : (readDoc e).xmlns with
  | none =>
    have hsame : Xml.renameList plainName (rereadDoc e).content = tidyMarkup e := by
      rw [rereadDoc, hdefault, hxmlns, Xml.renameList_renameList,
        Xml.renameList_eq_self, names_tidyMarkup, List.forall_mem_map]
      exact fun n _ => plainName_adopt_wadl n
    rw [hcontent, hsame, ← unified_content he, Xml.unified_eq_self]
    simp
  | some space =>
    have hforeign := (space_readDoc he hxmlns).2
    have hsame : Xml.renameList plainName (rereadDoc e).content = (rereadDoc e).content := by
      rw [Xml.renameList_eq_self, rereadDoc, hdefault, hxmlns,
        Xml.namesList_renameList, names_tidyMarkup, List.map_map, List.forall_mem_map]
      exact fun n _ => plainName_adopt hforeign n
    have hadopted : (rereadDoc e).content = tidyMarkup e ↔ ∀ n ∈ Xml.namesList e.content,
        n.isWadl = false := by
      rw [rereadDoc, hdefault, hxmlns, Xml.renameList_eq_self, names_tidyMarkup,
        List.forall_mem_map]
      exact forall₂_congr fun n _ => adopt_plainName_eq_self
    rw [hcontent, hsame, ← hadopted]
    constructor
    -- markup that is adopted stays tidy, so what is written for it holds no carriage returns
    · intro heq
      have hreturn : '\r' ∉ (readDoc e).content.toList :=
        heq ▸ Xml.return_notMem_markup he.reread.1 he.reread.2
      refine ⟨hreturn, Or.inr (Xml.markup_injective he.reread.1 he.tidy.1 he.reread.2 he.tidy.2 ?_)⟩
      rw [heq, ← unified_content he, Xml.unified_eq_self.2 hreturn]
    · rintro ⟨hreturn, hnone | htidy⟩
      · cases hnone
      · rw [htidy, ← unified_content he, Xml.unified_eq_self.2 hreturn]

end Reread

theorem Doc.eq_of_fields :
    ∀ {d other : Doc}, d.title = other.title → d.lang = other.lang → d.content = other.content →
      d.xmlns = other.xmlns → d = other
  | ⟨_, _, _, _⟩, ⟨_, _, _, _⟩, rfl, rfl, rfl, rfl => rfl

/-- An element of a document that is read, comments and instructions left out. -/
theorem clean_of_within {root : Xml.Node} {e : Element} (hroot : root.Proper)
    (he : e.node.Within root.withoutMarks) : e.Clean := by
  cases root with
  | element tag content =>
    exact (Xml.all_withoutMarks (fun _ _ => Xml.IsPiece.append) hroot).within he
  | text s => cases he
  | comment s => cases he
  | instruction s => cases he

/-- Documentation that is written as a document's own is read back just if its namespace can be a
default one, its content holds no carriage returns, and it has no namespace unless all elements in
its content have foreign ones. -/
theorem render_doc_reads_back (text base : String) (bytes : List UInt8)
    (codecs : Codecs) (strict : Bool) {root : Xml.Node} {e : Element}
    (hread : Xml.readText text = some root ∨ Xml.readBytes bytes codecs = .ok root)
    (he : e.node.Within root.withoutMarks) :
    ∃ written, render ⟨base, [readDoc e], [], [], [], [], [], []⟩ = .ok written ∧
      ((∃ app, Always (readDescriptionText base strict written) app ∧ app.docs = [readDoc e]) ↔
        (readDoc e).xmlns ≠ some Xml.xmlNamespace ∧ '\r' ∉ (readDoc e).content.toList ∧
          ((readDoc e).xmlns = none ∨ ∀ n ∈ Xml.namesList e.content, n.isWadl = false)) := by
  have hroot : root.Proper := hread.elim Xml.proper_readText Xml.proper_readBytes
  have hclean : e.Clean := clean_of_within hroot he
  refine ⟨(Outline.root [Render.doc (readDoc e)]).document, rfl, ?_⟩
  unfold readDescriptionText
  by_cases hxml : (readDoc e).xmlns = some Xml.xmlNamespace
  · rw [readText_doc_refused hclean hxml]
    refine iff_of_false ?_ fun h => h.1 hxml
    rintro ⟨app, halways, -⟩
    obtain ⟨t, hgives⟩ := halways []
    exact gives_throw hgives
  · have halways := always_readDescription_doc hclean base strict
    rw [readText_doc hclean hxml, ← content_reread hclean, and_iff_right hxml]
    constructor
    · rintro ⟨app, hother, hdocs⟩
      obtain rfl := halways.unique [] hother
      have hdoc : readDoc (rereadDoc e) = readDoc e := List.singleton_inj.1 hdocs
      rw [hdoc]
    · intro hcontent
      obtain ⟨htitle, hlang⟩ := attributes_reread e
      have hxmlns := xmlns_reread hclean
      exact ⟨_, halways, List.singleton_inj.2 (Doc.eq_of_fields htitle hlang hcontent hxmlns)⟩

/-- A document with the documentation of a piece in the namespace of descriptions beside one in a
foreign one, and with that of a foreign piece after text. -/
def mixedText : String :=
  "<application xmlns=\"http://wadl.dev.java.net/2009/02\" xmlns:h=\"http://www.w3.org/1999/xhtml\">" ++
  "<doc><p/><h:b/></doc><doc>see <h:b/></doc></application>"

/-- The documentation of two pieces, one of them foreign. -/
def mixedDoc : Element where
  tag := ⟨⟨some wadlSpace, "doc"⟩, []⟩
  content :=
    [.element ⟨⟨some wadlSpace, "p"⟩, []⟩ [],
      .element ⟨⟨some "http://www.w3.org/1999/xhtml", "b"⟩, []⟩ []]

/-- The documentation of a foreign piece after text. -/
def foreignDoc : Element where
  tag := ⟨⟨some wadlSpace, "doc"⟩, []⟩
  content := [.text "see ", .element ⟨⟨some "http://www.w3.org/1999/xhtml", "b"⟩, []⟩ []]

/-- Of the documentation in one document, the one that mixes namespaces is not read back, and the
other is. -/
theorem render_doc_reads_back_mixed :
    readDoc mixedDoc = ⟨none, none, "<p /><html:b xmlns:html=\"http://www.w3.org/1999/xhtml\" />",
      some "http://www.w3.org/1999/xhtml"⟩ ∧
    (∃ written, render ⟨"", [readDoc mixedDoc], [], [], [], [], [], []⟩ = .ok written ∧
      ¬∃ app, Always (readDescriptionText "" false written) app ∧ app.docs = [readDoc mixedDoc]) ∧
    ∃ written, render ⟨"", [readDoc foreignDoc], [], [], [], [], [], []⟩ = .ok written ∧
      ∃ app, Always (readDescriptionText "" false written) app ∧
        app.docs = [readDoc foreignDoc] := by
  have hread : Xml.readText mixedText =
      some (.element ⟨⟨some wadlSpace, "application"⟩, []⟩ [mixedDoc.node, foreignDoc.node]) := by
    have hchars : mixedText.toList = _ :=
      String.toList_append.trans (congrArg₂ (· ++ ·) String.toList_ofList String.toList_ofList)
    rw [Xml.readText, hchars]
    decide +kernel
  have hwithin : ∀ e ∈ [mixedDoc, foreignDoc], e.node.Within
      (Xml.Node.element ⟨⟨some wadlSpace, "application"⟩, []⟩
        [mixedDoc.node, foreignDoc.node]).withoutMarks := by
    intro e he
    exact .inside (List.mem_map_of_mem he) .self
  refine ⟨by decide +kernel, ?_, ?_⟩
  · obtain ⟨written, hwritten, hback⟩ :=
      render_doc_reads_back mixedText "" [] .standard false (.inl hread)
        (hwithin mixedDoc (by simp))
    exact ⟨written, hwritten, fun h => absurd (hback.1 h).2.2 (by decide +kernel)⟩
  · obtain ⟨written, hwritten, hback⟩ :=
      render_doc_reads_back mixedText "" [] .standard false (.inl hread)
        (hwithin foreignDoc (by simp))
    exact ⟨written, hwritten, hback.2 (by decide +kernel)⟩

end Wadl
