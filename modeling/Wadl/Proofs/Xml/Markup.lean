import Wadl.Proofs.Xml.Prefixes
import Wadl.Proofs.Xml.Tidy

/-!
# Markup read back

Each piece of markup is written with prefixes that it declares itself. Inside an open element, what
is written for markup adds the tidy markup to the content, where the elements without a namespace
are adopted by the default one (`reads_written`).
-/

namespace Wadl.Xml

/-! ## The characters of an element -/

/-- The characters of a start tag after its label: declarations of prefixes, and attributes. -/
def attributesChars (ps qs : Prefixes) (tag : Tag) : List Char :=
  (qs.map declaring ++ ps.qualified tag).flatMap doubleQuoted

/-- A text that declares some prefixes. -/
def Declares (declared : String) (qs : Prefixes) : Prop :=
  declared.toList = (qs.map declaring).flatMap doubleQuoted

theorem declares_empty : Declares "" [] := rfl

theorem declares_declarations (ps : Prefixes) :
    Declares ps.declarations (sorted (fun a b => a.2 ≤ b.2) ps) := by
  unfold Declares Prefixes.declarations
  rw [String.toList_join, List.flatMap_map, List.flatMap_map]
  congr 1
  funext ⟨space, mark⟩
  simp [declaring, doubleQuoted]

section Characters

variable {ps qs : Prefixes} {declared : String}

/-- An element is written as a start tag, its content and an end tag, or as an empty one. -/
theorem toList_writtenWith (hdeclared : Declares declared qs) (tag : Tag) (content : List Node) :
    ((Node.element tag content).writtenWith ps declared).toList =
      if content = [] then
        tagAfter "" ((ps.qualify tag.name).toList ++ attributesChars ps qs tag ++ [' ', '/'])
      else
        tagAfter "" ((ps.qualify tag.name).toList ++ attributesChars ps qs tag) ++
          (writtenList ps content).toList ++ tagAfter "" ('/' :: (ps.qualify tag.name).toList) := by
  have hattributes : (String.join (tag.attributes.map fun a =>
      " " ++ ps.qualify a.1 ++ "=\"" ++ escapeAttribute a.2 ++ "\"")).toList =
      (ps.qualified tag).flatMap doubleQuoted := by
    rw [String.toList_join, List.flatMap_map, Prefixes.qualified, List.flatMap_map]
    congr 1
    funext a
    simp [doubleQuoted]
  have hdeclared : declared.toList = (qs.map declaring).flatMap doubleQuoted := hdeclared
  unfold Node.writtenWith
  simp only [List.isEmpty_iff]
  split
  · simp [hattributes, hdeclared, attributesChars, tagAfter]
  · simp [hattributes, hdeclared, attributesChars, tagAfter]

theorem writtenList_eq_joined (ps : Prefixes) (content : List Node) :
    writtenList ps content = joined (·.writtenWith ps "") content := by
  induction content with
  | nil => rfl
  | cons n rest ih => rw [writtenList, joined_cons, ih]

theorem writtenWith_text (ps : Prefixes) (declared s : String) :
    (Node.text s).writtenWith ps declared = escapeText s := rfl

/-- The label of a tag that is known, and those of its attributes. -/
theorem isLabel_known (hps : ps.Good) {tag : Tag} (htag : ps.Knows tag) :
    isLabel (ps.qualify tag.name).toList = true ∧
      ∀ a ∈ ps.qualified tag, isLabel a.1.toList = true ∧ IsText a.2 := by
  have hserves : ps.Serves (Bindings.declaring [] ps) := serves_declaring hps (List.Perm.refl ps)
  refine ⟨(qualify_read hps hserves htag.1.name htag.2.1).1, fun a ha => ?_⟩
  obtain ⟨b, hb, rfl⟩ := List.mem_map.1 ha
  obtain ⟨hproper, -, htext⟩ := htag.1.attributes b hb
  exact ⟨(qualify_read hps hserves hproper (htag.2.2 b hb)).1, htext⟩

theorem isLabel_declaring (hps : ps.Good) {p : String × String} (hp : p ∈ ps) :
    isLabel (declaring p).1.toList = true ∧ IsText (declaring p).2 := by
  have hchars : (declaring p).1.toList = "xmlns".toList ++ ':' :: p.2.toList := by
    simp [declaring]
  rw [hchars]
  exact ⟨isLabel_colon (by decide) (hps.mark hp).1, (hps.spaces p hp).1.text⟩

/-- The attributes of a start tag are spelled as they are written. -/
theorem attributesChars_labels (hps : ps.Good) (hqs : ∀ p ∈ qs, p ∈ ps) {tag : Tag}
    (htag : ps.Knows tag) :
    ∀ a ∈ qs.map declaring ++ ps.qualified tag, isLabel a.1.toList = true ∧ IsText a.2 := by
  refine List.forall_mem_append.2 ⟨fun a ha => ?_, (isLabel_known hps htag).2⟩
  obtain ⟨p, hp, rfl⟩ := List.mem_map.1 ha
  exact isLabel_declaring hps (hqs p hp)

theorem return_notMem_attributesChars (hps : ps.Good) (hqs : ∀ p ∈ qs, p ∈ ps) {tag : Tag}
    (htag : ps.Knows tag) : '\r' ∉ attributesChars ps qs tag := by
  intro hmem
  obtain ⟨a, ha, hmem⟩ := List.mem_flatMap.1 hmem
  have hcases : '\r' ∈ a.1.toList ∨ '\r' ∈ (escapeAttribute a.2).toList := by
    simpa [doubleQuoted] using hmem
  rcases hcases with hname | hvalue
  · exact return_notMem_label (attributesChars_labels hps hqs htag a ha).1 hname
  · exact (mem_escapeAttribute hvalue).2.2 rfl

end Characters

/-! ## Line ends -/

/-- The line ends of an element are unified in its texts. -/
theorem unifyLineEnds_writtenWith {ps : Prefixes} (hps : ps.Good)
    {tag : Tag} {content : List Node} (h : (Node.element tag content).All ps.Knows IsPiece False)
    (qs : Prefixes) (declared : String) (hqs : ∀ p ∈ qs, p ∈ ps) (hdeclared : Declares declared qs)
    (rest : List Char) :
    ((Node.element tag content).writtenWith ps declared).toList.head? = some '<' ∧
      Text.unifyLineEnds (((Node.element tag content).writtenWith ps declared).toList ++ rest) =
        ((Node.element tag content).tidy.writtenWith ps declared).toList ++
          Text.unifyLineEnds rest := by
  cases h with
  | element htag hinside =>
    have hlabel := return_notMem_label (isLabel_known hps htag).1
    have hattributes := return_notMem_attributesChars hps hqs htag
    have hempty : tidyList "" content = [] ↔ "" = "" ∧ content = [] := tidyList_eq_nil hinside
    rw [Node.tidy, toList_writtenWith hdeclared, toList_writtenWith hdeclared]
    by_cases hcontent : content = []
    · have htidy : tidyList "" content = [] := hempty.2 ⟨rfl, hcontent⟩
      have hreturn :
          '\r' ∉ tagAfter ""
            ((ps.qualify tag.name).toList ++ attributesChars ps qs tag ++ [' ', '/']) :=
        return_notMem_tagAfter (by decide) (by simp [hlabel, hattributes])
      rw [if_pos hcontent, if_pos htidy]
      exact ⟨rfl, Text.unifyLineEnds_append_of_notMem hreturn rest⟩
    · have htidy : tidyList "" content ≠ [] := fun h => hcontent (hempty.1 h).2
      have hstart : '\r' ∉ tagAfter ""
          ((ps.qualify tag.name).toList ++ attributesChars ps qs tag) :=
        return_notMem_tagAfter (by decide) (by simp [hlabel, hattributes])
      have hfinish : '\r' ∉ tagAfter "" ('/' :: (ps.qualify tag.name).toList) :=
        return_notMem_tagAfter (by decide) (by simp [hlabel])
      have hinner := unifyLineEnds_joined (writtenWith_text ps "") "" hinside fun _ _ hmem =>
        unifyLineEnds_writtenWith hps (hinside _ hmem) [] "" (List.forall_mem_nil _) declares_empty
      rw [escapeText_empty, String.empty_append, ← writtenList_eq_joined,
        ← writtenList_eq_joined] at hinner
      rw [if_neg hcontent, if_neg htidy]
      refine ⟨rfl, ?_⟩
      -- a carriage return at the end of the content is a line end of its own, since a tag follows
      -- it
      have hend : (tagAfter "" ('/' :: (ps.qualify tag.name).toList) ++ rest).head? ≠
          some '\n' := by
        intro h
        exact absurd (Option.some.inj h) (by decide)
      rw [List.append_assoc, List.append_assoc, Text.unifyLineEnds_append_of_notMem hstart,
        Text.unifyLineEnds_append hend, Text.unifyLineEnds_append_of_notMem hfinish,
        ← hinner, toList_unified]
      simp only [List.append_assoc]
termination_by sizeOf content
decreasing_by
  have hlt := List.sizeOf_lt_of_mem hmem
  simp only [Node.element.sizeOf_spec] at hlt
  omega

/-! ## Markup read back -/

/-- If what is written for each element adds the element with another name, what is written for tidy
markup is read as the markup with other names. -/
theorem reads_joined {write : Node → String} {bindings : Bindings} {f : Name → Name}
    (htext : ∀ s, write (.text s) = escapeText s) {content : List Node} (h : Tidy content)
    (helements : ∀ tag inside, .element tag inside ∈ content → Tidy inside → ∀ s, IsText s →
      Adds bindings ((escapeText s).toList ++ (write (.element tag inside)).toList)
        (textNodes s ++ [(Node.element tag inside).rename f])) :
    Reads bindings (joined write content).toList (renameList f content) := by
  induction h with
  | text hs hreturn =>
    rw [joined_textNodes htext, renameList_textNodes]
    exact reads_text hs
  | @element s tag inside rest hs hreturn hinside hrest ihInside ihRest =>
    have hfirst := helements tag inside (by simp) hinside s hs
    have hnext := ihRest fun t i hmem => helements t i (by simp [hmem])
    rw [joined_append, joined_textNodes htext, joined_cons, renameList_eq_map, List.map_append,
      ← renameList_eq_map, ← renameList_eq_map, renameList_textNodes, renameList,
      String.toList_append, String.toList_append, ← List.append_assoc]
    rw [Node.rename] at hfirst ⊢
    exact hfirst.reads hnext

/-- What is written for a tidy element adds the element, after the text before it. -/
theorem adds_writtenWith {ps : Prefixes} (hps : ps.Good) :
    ∀ {tag : Tag} {content : List Node},
      Tidy content → (Node.element tag content).All ps.Knows IsPiece False →
      ∀ (bindings : Bindings) (qs : Prefixes) (declared : String),
        (∀ p ∈ qs, p ∈ ps) → (qs.map (·.2)).Nodup →
        Declares declared qs → ps.Serves (bindings.declaring qs) → ∀ s, IsText s →
          Adds bindings ((escapeText s).toList ++
            ((Node.element tag content).writtenWith ps declared).toList)
            (textNodes s ++ [(Node.element tag content).rename (Name.adopt bindings.default?)])
  | tag, content, htidy, .element htag hinside => by
    intro bindings qs declared hqs hdistinct hdeclared hserves s hs
    have hlabel := (isLabel_known hps htag).1
    have hspells : Spells (attributesChars ps qs tag) (qs.map declaring ++ ps.qualified tag) :=
      spells_doubleQuoted (attributesChars_labels hps hqs htag)
    have hread := resolveTag_written hps hqs hdistinct hserves htag.1 htag.2
    have hbefore : ∀ chars,
        (escapeText s).toList ++ tagAfter "" chars = tagAfter (escapeText s) chars := by
      intro chars
      simp [tagAfter]
    rw [toList_writtenWith hdeclared, Node.rename]
    by_cases hcontent : content = []
    · rw [if_pos hcontent, hbefore, hcontent]
      exact adds_emptyElement hs hlabel hspells hread .spaced
    · have hreads : Reads (bindings.declaring qs) (joined (·.writtenWith ps "") content).toList
          (renameList (Name.adopt (bindings.declaring qs).default?) content) :=
        reads_joined (writtenWith_text ps "") htidy fun _ _ hmem hinner =>
          adds_writtenWith hps hinner (hinside _ hmem) _ [] "" (List.forall_mem_nil _)
            List.nodup_nil declares_empty hserves
      rw [← writtenList_eq_joined, default_declaring hps hqs] at hreads
      have hadds := hreads.adds_element hs hlabel hspells hread
      rw [if_neg hcontent, ← List.append_assoc, ← List.append_assoc, hbefore]
      exact hadds
termination_by _ content => sizeOf content
decreasing_by
  have hlt := List.sizeOf_lt_of_mem hmem
  simp only [Node.element.sizeOf_spec] at hlt
  omega

/-! ## Pieces that declare their prefixes -/

theorem written_text (s : String) : (Node.text s).written = escapeText s := rfl

section Written

variable {content : List Node}

theorem perm_declared (ps : Prefixes) : (sorted (fun a b => a.2 ≤ b.2) ps).Perm ps := sorted_perm ps

theorem good_table {n : Node} (h : n.All Tag.Proper IsPiece False) : (n.meetAll []).Good :=
  good_meetAll Prefixes.good_nil h

/-- An element with its declarations is read back in any bindings. -/
theorem adds_written {tag : Tag} (htidy : Tidy content)
    (h : (Node.element tag content).All Tag.Proper IsPiece False) (bindings : Bindings)
    {s : String} (hs : IsText s) :
    Adds bindings ((escapeText s).toList ++ (Node.element tag content).written.toList)
      (textNodes s ++ [(Node.element tag content).rename (Name.adopt bindings.default?)]) := by
  have hgood := good_table h
  have hperm := perm_declared ((Node.element tag content).meetAll [])
  exact adds_writtenWith hgood htidy (all_metTag h) bindings _ _ (fun p hp => hperm.mem_iff.1 hp)
    ((hperm.map _).nodup_iff.2 hgood.distinct) (declares_declarations _)
      (serves_declaring hgood hperm) s hs

/-- What is written for tidy markup is read as the markup, where the default namespace adopts the
elements that have none. -/
theorem reads_markup (htidy : Tidy content) (h : ∀ n ∈ content, n.All Tag.Proper IsPiece False)
    (bindings : Bindings) :
    Reads bindings (joined Node.written content).toList
      (renameList (Name.adopt bindings.default?) content) :=
  reads_joined written_text htidy fun _ _ hmem hinside _ hs =>
    adds_written hinside (h _ hmem) bindings hs

/-- What is written for markup is read as what is written for the tidy markup. -/
theorem unified_markup (h : ∀ n ∈ content, n.All Tag.Proper IsPiece False) :
    unified (joined Node.written content) = joined Node.written (tidyList "" content) := by
  have hunified := unifyLineEnds_joined written_text "" h fun tag inside hmem rest => ?_
  · rwa [escapeText_empty, String.empty_append] at hunified
  · have hall := h _ hmem
    have hperm := perm_declared ((Node.element tag inside).meetAll [])
    have hmeet : (Node.element tag inside).tidy.meetAll [] =
        (Node.element tag inside).meetAll [] := by
      rw [Node.tidy, Node.meetAll, Node.meetAll, meetAllList_tidyList]
    have hsame : (Node.element tag inside).tidy.written = (Node.element tag inside).tidy.writtenWith
        ((Node.element tag inside).meetAll [])
          ((Node.element tag inside).meetAll []).declarations := by
      rw [Node.written, hmeet]
    rw [hsame]
    exact unifyLineEnds_writtenWith (good_table hall) (all_metTag hall) _ _
      (fun p hp => hperm.mem_iff.1 hp) (declares_declarations _) rest

/-- What is written for tidy markup holds no carriage returns. -/
theorem return_notMem_markup (htidy : Tidy content)
    (h : ∀ n ∈ content, n.All Tag.Proper IsPiece False) :
    '\r' ∉ (joined Node.written content).toList := by
  rw [← unified_eq_self, unified_markup h, htidy.tidyList_eq]

/-- Markup is known from what is written for it. -/
theorem markup_injective {other : List Node} (htidy : Tidy content) (hother : Tidy other)
    (h : ∀ n ∈ content, n.All Tag.Proper IsPiece False)
    (h' : ∀ n ∈ other, n.All Tag.Proper IsPiece False)
    (heq : joined Node.written content = joined Node.written other) : content = other := by
  have hnone : ∀ content : List Node,
      renameList (Name.adopt (Bindings.default? [])) content = content := by
    intro content
    refine renameList_eq_self.2 fun n _ => ?_
    simp [Name.adopt, Bindings.default?]
  have hread := reads_markup htidy h []
  have hread' := reads_markup hother h' []
  rw [hnone] at hread hread'
  rw [heq] at hread
  exact hread.unique hread'

end Written

end Wadl.Xml
