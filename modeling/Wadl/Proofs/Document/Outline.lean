import Mathlib.Data.List.Nodup
import Wadl.Document.Outline
import Wadl.Document.Vocabulary
import Wadl.Proofs.Xml.Content

/-!
# Outlines inside an element

An outline stands for a tree: one element for each outline, with its attributes, and the line ends
and indentation between the elements as text. Inside an open element of a description, the
characters of an outline add the element that it stands for to the content (`adds_written`),
whatever follows them.
-/

namespace Wadl

open Xml

namespace Outline

/-! ## The tree of an outline -/

/-- The names of the attributes of a description. -/
def attributeNames : List String :=
  ["title", "xml:lang", "value", "mediaType", "resource_type", "rel", "rev", "id",
    "href", "name", "style", "type", "default", "fixed", "path", "required", "repeating", "element",
    "profile", "status", "queryType", "base"]

/-- The name of an attribute as it is read. -/
def attributeName (name : String) : Xml.Name :=
  if name = "xml:lang" then ⟨some xmlNamespace, "lang"⟩ else .plain name

/-- Attributes as they are read. -/
def named (attributes : List (String × String)) : List (Xml.Name × String) :=
  attributes.map fun a => (attributeName a.1, a.2)

/-- The label of an outline. -/
def label : Outline → String
  | element tag _ _ => tag
  | verbatim tag _ _ => tag

/-- The attributes of an outline. -/
def attributes : Outline → List (String × String)
  | element _ attributes _ => attributes
  | verbatim _ attributes _ => attributes

/-- The tag of an outline as it is read. -/
def tag (o : Outline) : Tag :=
  ⟨⟨some wadlSpace, o.label⟩, named o.attributes⟩

/-- The line end before an element, and its indentation. -/
def gap (depth : Nat) : String := "\n" ++ indent depth

/-- The text that escaped text stands for. -/
def unescaped (content : String) : String := partsText ((parts content.toList).getD [])

mutual

/-- The content of an outline as it is read. -/
def content (depth : Nat) : Outline → List Node
  | element _ _ children =>
    if children.isEmpty then [] else between (depth + 1) children ++ [.text (gap depth)]
  | verbatim _ _ content => textNodes (unescaped content)

/-- Outlines as content, each after a line end. -/
def between (depth : Nat) : List Outline → List Node
  | [] => []
  | o :: rest => .text (gap depth) :: .element o.tag (content depth o) :: between depth rest

end

/-! ## Outlines that are read back -/

/-- Attributes that are read back. -/
structure SoundAttributes (attributes : List (String × String)) : Prop where
  distinct : (attributes.map (·.1)).Nodup
  known : ∀ a ∈ attributes, a.1 ∈ attributeNames
  text : ∀ a ∈ attributes, IsText a.2

/-- The kind of an outline. -/
def kind (o : Outline) : ElementKind := (ElementKind.ofWord? o.label).getD .doc

/-- An outline of an element of a description with elements in it that may stand there, and with
escaped text as documentation. -/
inductive Sound : Outline → Prop where
  | element {k : ElementKind} {attrs : List (String × String)} {inside : List Outline}
      (attributes : SoundAttributes attrs) (allowed : ∀ o ∈ inside, o.kind ∈ k.children)
      (children : ∀ o ∈ inside, Sound o) : Sound (.element k.word attrs inside)
  | doc {attrs : List (String × String)} {s : String} (attributes : SoundAttributes attrs)
      (text : IsText s) (noReturn : '\r' ∉ s.toList) :
      Sound (.verbatim ElementKind.doc.word attrs (escapeText s))

theorem kind_of_label {o : Outline} {k : ElementKind} (h : o.label = k.word) : o.kind = k := by
  rw [kind, h, ElementKind.ofWord?_word]
  rfl

theorem Sound.label {o : Outline} (h : o.Sound) : o.label = o.kind.word := by
  cases h with
  | @element k _ _ _ _ _ => rw [kind_of_label (k := k) rfl]; rfl
  | doc => rw [kind_of_label (k := .doc) rfl]; rfl

theorem Sound.attributes {o : Outline} (h : o.Sound) : SoundAttributes o.attributes := by
  cases h with
  | element h => exact h
  | doc h => exact h

/-! ## The characters of an outline -/

/-- A start tag without its brackets. -/
def startChars (tag : String) (attributes : List (String × String)) : List Char :=
  tag.toList ++ attributes.flatMap attributeChars

mutual

/-- The characters of an outline after some text. -/
def written (before : String) (depth : Nat) : Outline → List Char
  | element tag attributes children =>
    if children.isEmpty then tagAfter before (startChars tag attributes ++ ['/'])
    else tagAfter before (startChars tag attributes) ++ writtenList (depth + 1) children ++
      tagAfter (gap depth) ('/' :: tag.toList)
  | verbatim tag attributes content =>
    tagAfter before (startChars tag attributes) ++ tagAfter content ('/' :: tag.toList)

/-- The characters of outlines on lines of their own. -/
def writtenList (depth : Nat) : List Outline → List Char
  | [] => []
  | o :: rest => written (gap depth) depth o ++ writtenList depth rest

end

/-- What stands before an outline is written in front of it. -/
theorem written_append (before : String) (depth : Nat) (o : Outline) :
    o.written before depth = before.toList ++ o.written "" depth := by
  have hbefore : ∀ tag, tagAfter before tag = before.toList ++ tagAfter "" tag := by
    intro tag
    simp [tagAfter]
  cases o with
  | element tag attributes children =>
    unfold written
    rw [hbefore (startChars tag attributes), hbefore (startChars tag attributes ++ ['/'])]
    split
    · rfl
    · simp only [List.append_assoc]
  | verbatim tag attributes content =>
    unfold written
    rw [hbefore (startChars tag attributes), List.append_assoc]

mutual

/-- The lines of an outline, each after a line end, are its characters after a line end. -/
theorem flatMap_lines (depth : Nat) :
    ∀ o : Outline, (o.lines depth).flatMap (fun l => '\n' :: l.toList) = o.written (gap depth) depth
  | element tag attributes [] => by
    simp [lines, written, tagAfter, startChars, gap, toList_attributeText]
  | element tag attributes (child :: children) => by
    have hchild := flatMap_lines (depth + 1) child
    have hchildren := flatMap_linesOfList (depth + 1) children
    unfold lines written
    rw [List.flatMap_append, List.flatMap_append, List.flatMap_append, hchild, hchildren]
    simp [writtenList, tagAfter, startChars, gap, toList_attributeText]
  | verbatim tag attributes content => by
    simp [lines, written, tagAfter, startChars, gap, toList_attributeText]

/-- Lines are written one after the other. -/
theorem flatMap_linesOfList (depth : Nat) :
    ∀ os : List Outline,
      (linesOfList depth os).flatMap (fun l => '\n' :: l.toList) = writtenList depth os
  | [] => by simp [linesOfList, writtenList]
  | o :: rest => by
    rw [linesOfList, writtenList, List.flatMap_append, flatMap_lines depth o,
      flatMap_linesOfList depth rest]

end

end Outline

/-! ## Attributes -/

namespace Xml

/-- The bindings inside the root of a description. -/
def rootBindings : Bindings := [([], wadlSpace)]

end Xml

namespace Outline

/-- Different attributes have different names. -/
theorem attributeName_inj {a b : String} (h : attributeName a = attributeName b) : a = b := by
  unfold attributeName at h
  by_cases ha : a = "xml:lang"
  · by_cases hb : b = "xml:lang"
    · rw [ha, hb]
    · rw [if_pos ha, if_neg hb] at h
      cases h
  · by_cases hb : b = "xml:lang"
    · rw [if_neg ha, if_pos hb] at h
      cases h
    · rw [if_neg ha, if_neg hb] at h
      exact (Xml.Name.mk.inj h).2

/-- Each attribute of a description has a name of its own, and declares no namespace. -/
theorem attributeName_of_known {name : String} (h : name ∈ attributeNames) :
    isLabel name.toList = true ∧ declaredPrefix? name.toList = none ∧
      ∀ bindings, attributeName? bindings name.toList = some (attributeName name) := by
  have hall : ∀ n ∈ attributeNames, isLabel n.toList = true ∧ declaredPrefix? n.toList = none ∧
      (n = "xml:lang" ∨ n ≠ "xml:lang" ∧ splitName n.toList = ([], n.toList)) := by decide +kernel
  obtain ⟨hlabel, hplain, hname⟩ := hall name h
  refine ⟨hlabel, hplain, fun bindings => ?_⟩
  rcases hname with rfl | ⟨hlang, hsplit⟩
  · rfl
  · rw [attributeName?, hsplit, attributeName, if_neg hlang]
    simp [Name.plain]

theorem isName_word (k : ElementKind) : isName k.word.toList = true := by
  cases k <;> decide

theorem isLabel_word (k : ElementKind) : isLabel k.word.toList = true :=
  isLabel_of_isName (isName_word k)

/-- No attribute that is written declares a prefix. -/
theorem declaredPrefix_spelled {attributes : List (String × String)}
    (h : ∀ a ∈ attributes, a.1 ∈ attributeNames) :
    ∀ b ∈ spelled attributes, declaredPrefix? b.1 = none := by
  intro b hb
  obtain ⟨a, ha, rfl⟩ := List.mem_map.1 hb
  exact (attributeName_of_known (h a ha)).2.1

/-- Attributes of descriptions have the names that are written. -/
theorem mapM_spelled {attributes : List (String × String)}
    (h : ∀ a ∈ attributes, a.1 ∈ attributeNames) (bindings : Bindings) :
    (spelled attributes).mapM (fun (n, v) => (attributeName? bindings n).map fun m => (m, v)) =
      some (named attributes) := by
  induction attributes with
  | nil => rfl
  | cons a attributes ih =>
    obtain ⟨ha, hrest⟩ := List.forall_mem_cons.1 h
    have htail := ih hrest
    unfold spelled named at htail ⊢
    rw [List.map_cons, List.mapM_cons, htail]
    simp only [(attributeName_of_known ha).2.2]
    rfl

/-- Attributes after the declaration of a default namespace, if there is one. -/
def withDefault (space : Option String) (attributes : List (String × String)) :
    List (String × String) :=
  space.toList.map ("xmlns", ·) ++ attributes

/-- The bindings inside an element that declares a default namespace, if it declares one. -/
def declaredBindings (space : Option String) (bindings : Bindings) : Bindings :=
  space.toList.map ([], ·) ++ bindings

/-- An element of a description is in the default namespace, which it may declare itself. -/
theorem resolveTag_withDefault {attributes : List (String × String)}
    (h : SoundAttributes attributes) (k : ElementKind) {space : Option String}
    (hspace : ∀ s, space = some s → isDeclarable [] s = true) (bindings : Bindings) :
    resolveTag bindings k.word.toList (spelled (withDefault space attributes)) =
      some (⟨⟨(declaredBindings space bindings).default?, k.word⟩, named attributes⟩,
        declaredBindings space bindings) := by
  have hplain := declaredPrefix_spelled h.known
  have hsplit : spelled (withDefault space attributes) =
      space.toList.map (("xmlns".toList, ·)) ++ spelled attributes := by
    cases space <;> simp [spelled, withDefault]
  have hdeclare : declare bindings (spelled (withDefault space attributes)) =
      some (declaredBindings space bindings) := by
    rw [hsplit]
    cases space with
    | none => exact declare_of_plain hplain
    | some s =>
      have hprefix : declaredPrefix? "xmlns".toList = some [] := rfl
      rw [Option.toList_some, List.map_singleton, List.singleton_append, declare, hprefix]
      exact (if_pos (hspace s rfl)).trans (declare_of_plain hplain)
  have hown : (spelled (withDefault space attributes)).filter
      (fun a => (declaredPrefix? a.1).isNone) = spelled attributes := by
    have hnone : (space.toList.map (("xmlns".toList, ·))).filter
        (fun a => (declaredPrefix? a.1).isNone) = [] := by
      cases space <;> rfl
    rw [hsplit, List.filter_append, hnone, List.nil_append, List.filter_eq_self]
    intro b hb
    rw [hplain b hb]
    rfl
  have hraw : allDistinct ((spelled (withDefault space attributes)).map (·.1)) = true := by
    have hmap : (spelled (withDefault space attributes)).map (·.1) =
        (space.toList.map (fun _ => "xmlns") ++ attributes.map (·.1)).map String.toList := by
      cases space <;> simp [spelled, withDefault]
    have hxmlns : "xmlns" ∉ attributes.map (·.1) := by
      intro hmem
      obtain ⟨a, ha, hname⟩ := List.mem_map.1 hmem
      have hknown := h.known a ha
      rw [hname] at hknown
      exact absurd hknown (by decide)
    rw [hmap, allDistinct_iff]
    refine List.Nodup.map (fun a b hab => String.toList_inj.1 hab) ?_
    cases space with
    | none => exact h.distinct
    | some s => exact List.nodup_cons.2 ⟨hxmlns, h.distinct⟩
  have hnames : allDistinct ((named attributes).map (·.1)) = true := by
    have hmap : (named attributes).map (·.1) = (attributes.map (·.1)).map attributeName := by
      simp [named]
    rw [hmap]
    exact allDistinct_iff.2 (h.distinct.map fun a b hab => attributeName_inj hab)
  unfold resolveTag
  simp only [hdeclare, Option.bind_eq_bind, Option.bind_some, hown]
  rw [mapM_spelled h.known, Option.bind_some, hraw, hnames, elementName_of_isName (isName_word k),
    String.ofList_toList]
  rfl

/-- The tag of an outline inside the root is read as it stands. -/
theorem resolveTag_sound {attributes : List (String × String)} (h : SoundAttributes attributes)
    (k : ElementKind) : resolveTag rootBindings k.word.toList (spelled attributes) =
      some (⟨⟨some wadlSpace, k.word⟩, named attributes⟩, rootBindings) :=
  @resolveTag_withDefault attributes h k none nofun rootBindings

/-- Gaps hold line ends and spaces only. -/
theorem mem_gap {depth : Nat} {c : Char} (h : c ∈ (gap depth).toList) : c = '\n' ∨ c = ' ' := by
  rw [gap, String.toList_append, List.mem_append, indent] at h
  rcases h with h | h
  · exact Or.inl (by simpa using h)
  · rw [String.toList_ofList] at h
    exact Or.inr (List.eq_of_mem_replicate h)

/-- The line end before an element is written as it is. -/
theorem escapeText_gap (depth : Nat) : escapeText (gap depth) = gap depth := by
  have hplain : ∀ c ∈ (gap depth).toList, textChar c = [c] := by
    intro c hc
    rcases mem_gap hc with rfl | rfl <;> decide
  rw [← String.toList_inj, toList_escapeText, List.flatMap_congr hplain]
  simp

theorem isText_gap (depth : Nat) : IsText (gap depth) := by
  intro c hc
  rcases mem_gap hc with rfl | rfl <;> decide

/-- Escaped text is undone by reading. -/
theorem unescaped_escapeText {s : String} (hs : IsText s) : unescaped (escapeText s) = s := by
  obtain ⟨ps, hps, hall⟩ := parts_escapeText hs
  rw [unescaped, hps, Option.getD_some, partsText_of_is hall, String.ofList_toList]

/-! ## Outlines inside an open element -/

/-- Sound attributes can be read. -/
theorem SoundAttributes.readable {attributes : List (String × String)}
    (h : SoundAttributes attributes) :
    ∀ a ∈ attributes, isLabel a.1.toList = true ∧ IsText a.2 := by
  intro a ha
  exact ⟨(attributeName_of_known (h.known a ha)).1, h.text a ha⟩

/-- And they are read back in order. -/
theorem SoundAttributes.spells {attributes : List (String × String)}
    (h : SoundAttributes attributes) : Spells (attributes.flatMap attributeChars) attributes :=
  spells_attributeChars h.readable

/-- Outlines as content end with an element. -/
theorem ready_between (depth : Nat) :
    ∀ (o : Outline) (os : List Outline), Ready (between depth (o :: os)).reverse
  | o, [] => by
    rw [between, between, List.reverse_cons, List.reverse_singleton]
    exact ready_element
  | o, p :: os => by
    have ih := ready_between depth p os
    have hne : (between depth (p :: os)).reverse ≠ [] := by simp [between]
    obtain ⟨n, ns, hns⟩ := List.exists_cons_of_ne_nil hne
    rw [between, List.reverse_cons, List.reverse_cons, hns]
    rw [hns] at ih
    intro s rest h
    rw [List.cons_append, List.cons_append] at h
    exact ih s ns (by rw [(List.cons.inj h).1])

theorem textNodes_gap (depth : Nat) : textNodes (gap depth) = [.text (gap depth)] := by
  rw [textNodes, if_neg]
  intro h
  have hlist := congrArg String.toList h
  simp [gap] at hlist

mutual

/-- An outline adds its element, after the text before it. -/
theorem adds_written {s : String} (hs : IsText s) (depth : Nat) :
    ∀ {o : Outline}, o.Sound →
      Adds rootBindings (o.written (escapeText s) depth)
        (textNodes s ++ [.element o.tag (o.content depth)])
  | .element _ _ [], .element (k := k) hsound _ _ => by
    rw [written, content]
    exact adds_emptyElement hs (isLabel_word k) hsound.spells (resolveTag_sound hsound k) .empty
  | .element _ _ (child :: children), .element (k := k) hsound _ hchildren => by
    have hinside := adds_writtenList (depth + 1) hchildren
    have hready := ready_between (depth + 1) child children
    have h := adds_element hs (isText_gap depth) (isLabel_word k) hsound.spells
      (resolveTag_sound hsound k) hinside hready
    rw [escapeText_gap, textNodes_gap] at h
    rw [written, content]
    exact h
  | .verbatim _ _ _, .doc (s := t) hsound ht _ => by
    have h := adds_element hs ht (isLabel_word .doc) hsound.spells (resolveTag_sound hsound .doc)
      adds_nil ready_nil
    rw [List.append_nil] at h
    rw [written, content, unescaped_escapeText ht]
    exact h

/-- Children are written so that they are read back, with gaps between them. -/
theorem adds_writtenList (depth : Nat) :
    ∀ {os : List Outline},
      (∀ o ∈ os, o.Sound) → Adds rootBindings (writtenList depth os) (between depth os)
  | [], _ => by
    rw [writtenList, between]
    exact adds_nil
  | o :: os, h => by
    obtain ⟨ho, hos⟩ := List.forall_mem_cons.1 h
    have hfirst := adds_written (isText_gap depth) depth ho
    have hrest := adds_writtenList depth hos
    rw [escapeText_gap, textNodes_gap] at hfirst
    rw [writtenList, between]
    exact hfirst.append hrest

end

end Outline

end Wadl
