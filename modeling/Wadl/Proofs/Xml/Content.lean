import Wadl.Proofs.Xml.Tags

/-!
# Content read back

The content of an element is written as escaped texts, each with a tag after it (`tagAfter`). These
become the tokens of the text and of the tag (`tokenizes_start`, `tokenizes_finish`), in which no
declared entity is referred to (`expandTokens_of_noEntities`), and the tokens add the text and the
element to the content of the element that is open (`build_text`, `build_finish`). So what is
written for an element adds that element (`adds_element`), whatever follows it.
-/

namespace Wadl.Xml

/-! ## A text and the tag after it -/

/-- Text, and a tag after it. -/
def tagAfter (text : String) (tag : List Char) : List Char := text.toList ++ '<' :: (tag ++ ['>'])

/-- Escaped text with a start tag after it becomes its tokens. -/
theorem tokenizes_start {s : String} (hs : IsText s) {label : List Char}
    (hlabel : isLabel label = true) {chars : List Char} {attributes : List (String × String)}
    (hattributes : Spells chars attributes) {tail : List Char} {empty : Bool}
    (htail : TagEnd tail empty) :
    ∃ ps raws, List.Forall₂ Part.Is ps s.toList ∧ List.Forall₂ RawAttribute.Is raws attributes ∧
      Tokenizes (tagAfter (escapeText s) (label ++ chars ++ tail))
        (textToken s ps ++ [.tag (.start label raws empty)]) := by
  obtain ⟨raws, hread, hraws⟩ := readTag_start hlabel hattributes htail
  obtain ⟨c, cs, hcs⟩ := List.exists_cons_of_ne_nil (ne_nil_of_isLabel hlabel)
  have hplain : ∀ d ∈ ['<', '>', '"', '\'', '!', '?'], d ∈ tagMarks :=
    List.all_iff_forall_prop.1 (by decide)
  have hc : c ∉ ['<', '>', '"', '\'', '!', '?'] := by
    intro hmem
    exact notMem_of_isLabel hlabel c (by rw [hcs]; exact List.mem_cons_self) (hplain c hmem)
  have hpasses : Passes (cs ++ (chars ++ tail)) := by
    have htailPasses : Passes tail := by
      cases htail with
      | plain => exact passes_nil
      | empty => exact passes_singleton (by decide)
      | spaced => exact (passes_singleton (by decide)).append (passes_singleton (by decide))
    have hlabelPasses : Passes cs := by
      refine passes_of_plain fun d hd hmem => ?_
      refine notMem_of_isLabel hlabel d (by rw [hcs]; exact List.mem_cons_of_mem c hd) (hplain d ?_)
      exact List.mem_append_left ['!', '?'] hmem
    exact hlabelPasses.append (hattributes.passes.append htailPasses)
  have hchars : label ++ chars ++ tail = c :: (cs ++ (chars ++ tail)) := by
    rw [hcs, List.cons_append, List.cons_append, List.append_assoc]
  rw [hcs, List.cons_append] at hread
  obtain ⟨ps, hps, htokens⟩ := tokenizes_tagAfter hs hc hpasses hread
  refine ⟨ps, raws, hps, hraws, ?_⟩
  rw [tagAfter, hchars, hcs]
  exact htokens

/-- Escaped text with an end tag after it becomes its tokens. -/
theorem tokenizes_finish {s : String} (hs : IsText s) {label : List Char}
    (hlabel : isLabel label = true) : ∃ ps, List.Forall₂ Part.Is ps s.toList ∧
      Tokenizes (tagAfter (escapeText s) ('/' :: label))
        (textToken s ps ++ [.tag (.finish label)]) :=
  tokenizes_tagAfter hs (by decide) (passes_label hlabel) (readTag_finish hlabel)

theorem return_notMem_label {label : List Char} (h : isLabel label = true) : '\r' ∉ label := by
  intro hmem
  exact notMem_of_isLabel h _ hmem (by decide)

theorem return_notMem_tagAfter {before : String} {tag : List Char} (hbefore : '\r' ∉ before.toList)
    (htag : '\r' ∉ tag) : '\r' ∉ tagAfter before tag := by
  simp [tagAfter, hbefore, htag]

/-! ## Tokens without entities -/

/-- Tokens without references to declared entities. -/
def NoEntities (ts : List Token) : Prop := ∀ ps, Token.text ps ∈ ts → ps.any Part.isEntity = false

/-- Tokens in a row hold no entities if none of them does. -/
theorem NoEntities.append {ts us : List Token} (hts : NoEntities ts) (hus : NoEntities us) :
    NoEntities (ts ++ us) := by
  intro ps hps
  rcases List.mem_append.1 hps with h | h
  · exact hts ps h
  · exact hus ps h

theorem noEntities_textToken {s : String} {ps : List Part}
    (hps : List.Forall₂ Part.Is ps s.toList) (raw : RawTag) :
    NoEntities (textToken s ps ++ [.tag raw]) := by
  intro qs hqs
  rcases List.mem_append.1 hqs with h | h
  · unfold textToken at h
    split at h
    · cases h
    · obtain rfl := Token.text.inj (List.mem_singleton.1 h)
      exact not_isEntity_of_is hps
  · cases List.mem_singleton.1 h

theorem mapM_singleton {f : Token → Option (List Token)} :
    ∀ {ts : List Token}, (∀ t ∈ ts, f t = some [t]) → (ts.mapM f).map List.flatten = some ts
  | [], _ => rfl
  | t :: ts, h => by
    obtain ⟨ht, hts⟩ := List.forall_mem_cons.1 h
    obtain ⟨found, hfound, hflat⟩ := Option.map_eq_some_iff.1 (mapM_singleton hts)
    rw [List.mapM_cons, ht, hfound]
    simp [hflat]

/-- Tokens without references to declared entities stay as they are. -/
theorem expandTokens_of_noEntities {ts : List Token} (h : NoEntities ts) (fuel : Nat)
    (entities : List (List Char × Entity)) : expandTokens (fuel + 1) entities ts = some ts := by
  unfold expandTokens
  refine mapM_singleton fun t ht => ?_
  cases t with
  | text ps =>
    simp only
    rw [h ps ht]
    rfl
  | _ => rfl

/-! ## Building the tree -/

/-- Text as content. -/
def textNodes (s : String) : List Node := if s = "" then [] else [.text s]

theorem reverse_textNodes (s : String) : (textNodes s).reverse = textNodes s := by
  unfold textNodes
  split <;> rfl

/-- A content that is kept last piece first, and whose last piece is no text. -/
def Ready (content : List Node) : Prop := ∀ s rest, content ≠ .text s :: rest

theorem ready_nil : Ready [] := by
  intro s rest h
  cases h

theorem ready_element {tag : Tag} {inside content : List Node} :
    Ready (.element tag inside :: content) := by
  intro s rest h
  cases (List.cons.inj h).1

/-- Attributes with the characters of their names, as they are read before namespaces are known. -/
def spelled (attributes : List (String × String)) : List (List Char × String) :=
  attributes.map fun a => (a.1.toList, a.2)

/-- The values of attributes without declarations are those that are written. -/
theorem attributeValues_of_is {raws : List RawAttribute} {attributes : List (String × String)}
    (h : List.Forall₂ RawAttribute.Is raws attributes) (standalone : Bool) (label : List Char) :
    attributeValues (.empty standalone) label raws = some (spelled attributes) := by
  have hgiven : raws.mapM (fun (a : RawAttribute) => do
      return (a.name, String.ofList (← (Doctype.empty standalone).value? false a.value))) =
      some (spelled attributes) := by
    induction h with
    | nil => rfl
    | @cons raw a raws attributes hraw _ ih =>
      have hvalue : (Doctype.empty standalone).value? false raw.value = some a.2.toList := by
        unfold Doctype.value?
        rw [valueText_of_is hraw.2]
        rfl
      rw [List.mapM_cons, hvalue, ih, hraw.1]
      simp [spelled]
  have hvalues : attributeValues (.empty standalone) label raws =
      (raws.mapM (fun (a : RawAttribute) => do
        return (a.name, String.ofList (← (Doctype.empty standalone).value? false a.value)))).bind
        fun given => some (given ++ []) := rfl
  rw [hvalues, hgiven]
  simp

section Build

variable {standalone : Bool} {name label chars : List Char} {tag found : Tag}
    {bindings inside : Bindings}
  {inner : List Node} {stack : List OpenElement} {rest : List Token}
  {attributes : List (String × String)} {raws : List RawAttribute}

/-- Text is added to the element that is open. -/
theorem build_text {s : String} {ps : List Part} (hps : List.Forall₂ Part.Is ps s.toList)
    (hready : Ready inner) :
    build (.empty standalone) (⟨name, tag, bindings, inner⟩ :: stack) (textToken s ps ++ rest) =
      build (.empty standalone) (⟨name, tag, bindings, textNodes s ++ inner⟩ :: stack) rest := by
  by_cases hs : s = ""
  · rw [textToken, if_pos hs, textNodes, if_pos hs]
    rfl
  · have hnode : addNode (.text (partsText ps)) inner = textNodes s ++ inner := by
      rw [partsText_of_is hps, String.ofList_toList, textNodes, if_neg hs]
      unfold addNode
      split
      · exact absurd rfl (hready _ _)
      · rename_i heq _
        rw [← Node.text.inj heq, if_neg (by simpa using hs)]
        rfl
      · rename_i hnone _
        exact absurd rfl (hnone s)
    rw [textToken, if_neg hs, ← hnode]
    rfl

/-- A start tag opens an element. -/
theorem build_start (htag : resolveTag bindings label (spelled attributes) = some (found, inside))
    (hraws : List.Forall₂ RawAttribute.Is raws attributes) :
    build (.empty standalone) (⟨name, tag, bindings, inner⟩ :: stack)
        (.tag (.start label raws false) :: rest) =
      build (.empty standalone)
        (⟨label, found, inside, []⟩ :: ⟨name, tag, bindings, inner⟩ :: stack) rest := by
  rw [build, attributeValues_of_is hraws]
  simp only [Option.bind_eq_bind, Option.bind_some, htag]
  rfl

/-- An empty tag adds an element without content. -/
theorem build_empty (htag : resolveTag bindings label (spelled attributes) = some (found, inside))
    (hraws : List.Forall₂ RawAttribute.Is raws attributes) :
    build (.empty standalone) (⟨name, tag, bindings, inner⟩ :: stack)
        (.tag (.start label raws true) :: rest) =
      build (.empty standalone) (⟨name, tag, bindings, .element found [] :: inner⟩ :: stack)
        rest := by
  rw [build, attributeValues_of_is hraws]
  simp only [Option.bind_eq_bind, Option.bind_some, htag]
  rw [if_pos trivial]
  rfl

/-- An element with declarations or names that are not allowed ends the reading. -/
theorem build_refused {empty : Bool} (htag : resolveTag bindings label (spelled attributes) = none)
    (hraws : List.Forall₂ RawAttribute.Is raws attributes) :
    build (.empty standalone) (⟨name, tag, bindings, inner⟩ :: stack)
        (.tag (.start label raws empty) :: rest) = none := by
  rw [build, attributeValues_of_is hraws]
  simp only [Option.bind_eq_bind, Option.bind_some, htag]
  rfl

/-- An end tag closes the element that is open and adds it to the one around. -/
theorem build_finish {content : List Node} :
    build (.empty standalone)
        (⟨label, found, inside, content⟩ :: ⟨name, tag, bindings, inner⟩ :: stack)
        (.tag (.finish label) :: rest) =
      build (.empty standalone)
        (⟨name, tag, bindings, .element found content.reverse :: inner⟩ :: stack) rest := by
  rw [build, if_pos rfl]
  rfl

/-- Characters that add pieces to the content of any open element inside which some prefixes are
bound. -/
def Adds (bindings : Bindings) (cs : List Char) (nodes : List Node) : Prop :=
  ∃ ts, Tokenizes cs ts ∧ NoEntities ts ∧ ∀ standalone name tag inner stack rest, Ready inner →
    build (.empty standalone) (⟨name, tag, bindings, inner⟩ :: stack) (ts ++ rest) =
      build (.empty standalone) (⟨name, tag, bindings, nodes.reverse ++ inner⟩ :: stack) rest

theorem adds_nil : Adds bindings [] [] :=
  ⟨[], tokenizes_nil, fun _ h => absurd h List.not_mem_nil, fun _ _ _ _ _ _ _ => rfl⟩

/-- Texts that add their nodes do so in a row, if an element comes between their texts. -/
theorem Adds.append {cs ds : List Char} {before nodes content : List Node}
    (hcs : Adds bindings cs (before ++ [.element found content])) (hds : Adds bindings ds nodes) :
    Adds bindings (cs ++ ds) (before ++ [.element found content] ++ nodes) := by
  obtain ⟨ts, htokens, hts, hbuild⟩ := hcs
  obtain ⟨us, hmore, hus, hnext⟩ := hds
  refine ⟨ts ++ us, htokens.append hmore, hts.append hus,
    fun standalone name tag inner stack rest hready => ?_⟩
  have hready' : Ready ((before ++ [Node.element found content]).reverse ++ inner) := by
    rw [List.reverse_append]
    exact ready_element
  have hreverse : (before ++ [Node.element found content] ++ nodes).reverse =
      nodes.reverse ++ (before ++ [Node.element found content]).reverse := List.reverse_append
  rw [List.append_assoc, hbuild _ _ _ _ _ _ hready, hnext _ _ _ _ _ _ hready', hreverse,
    List.append_assoc]

/-- What stands between a start tag and its end tag becomes the content of the element. -/
theorem adds_element {s t : String} (hs : IsText s) (ht : IsText t) (hlabel : isLabel label = true)
    (hattributes : Spells chars attributes)
    (htag : resolveTag bindings label (spelled attributes) = some (found, inside)) {cs : List Char}
    {nodes : List Node} (hinside : Adds inside cs nodes) (hready : Ready nodes.reverse) :
    Adds bindings (tagAfter (escapeText s) (label ++ chars) ++ cs ++
      tagAfter (escapeText t) ('/' :: label))
      (textNodes s ++ [.element found (nodes ++ textNodes t)]) := by
  obtain ⟨ps, raws, hps, hraws, hstart⟩ := tokenizes_start hs hlabel hattributes .plain
  obtain ⟨qs, hqs, hfinish⟩ := tokenizes_finish ht hlabel
  obtain ⟨ts, htokens, hts, hbuild⟩ := hinside
  rw [List.append_nil] at hstart
  refine ⟨_, (hstart.append htokens).append hfinish,
    ((noEntities_textToken hps _).append hts).append (noEntities_textToken hqs _),
    fun standalone name tag inner stack rest hinner => ?_⟩
  simp only [List.append_assoc, List.singleton_append]
  rw [build_text hps hinner, List.cons_append, build_start htag hraws, hbuild _ _ _ _ _ _ ready_nil,
    List.append_nil, build_text hqs hready, build_finish, List.reverse_append, List.reverse_reverse,
    List.reverse_append, reverse_textNodes, reverse_textNodes]
  rfl

/-- An empty element adds itself, and the text in front of it. -/
theorem adds_emptyElement {s : String} (hs : IsText s) (hlabel : isLabel label = true)
    (hattributes : Spells chars attributes)
    (htag : resolveTag bindings label (spelled attributes) = some (found, inside))
    {tail : List Char} (htail : TagEnd tail true) :
    Adds bindings (tagAfter (escapeText s) (label ++ chars ++ tail))
      (textNodes s ++ [.element found []]) := by
  obtain ⟨ps, raws, hps, hraws, hstart⟩ := tokenizes_start hs hlabel hattributes htail
  refine ⟨_, hstart, noEntities_textToken hps _,
    fun standalone name tag inner stack rest hinner => ?_⟩
  rw [List.append_assoc, build_text hps hinner, List.singleton_append, build_empty htag hraws,
    List.reverse_append, reverse_textNodes]
  rfl

/-- Characters between two tags that are read as some content: all up to the last tag among them,
and the text after it. -/
def Reads (bindings : Bindings) (cs : List Char) (nodes : List Node) : Prop :=
  ∃ front before t, cs = front ++ (escapeText t).toList ∧ IsText t ∧ Adds bindings front before ∧
    Ready before.reverse ∧ nodes = before ++ textNodes t

/-- Escaped text is read back. -/
theorem reads_text {s : String} (hs : IsText s) :
    Reads bindings (escapeText s).toList (textNodes s) :=
  ⟨[], [], s, (List.nil_append _).symm, hs, adds_nil, ready_nil, (List.nil_append _).symm⟩

/-- Once an element has ended, what follows is read on its own. -/
theorem Adds.reads {cs ds : List Char} {before nodes content : List Node}
    (hcs : Adds bindings cs (before ++ [.element found content])) (hds : Reads bindings ds nodes) :
    Reads bindings (cs ++ ds) (before ++ .element found content :: nodes) := by
  obtain ⟨front, inner, t, rfl, ht, hfront, hready, rfl⟩ := hds
  refine ⟨cs ++ front, before ++ [.element found content] ++ inner,
    t, by simp, ht, hcs.append hfront, ?_, by simp⟩
  rw [List.reverse_append]
  cases hinner : inner.reverse with
  | nil => exact List.reverse_append ▸ ready_element
  | cons n rest =>
    rw [hinner] at hready
    intro s others h
    exact hready s rest (by rw [(List.cons.inj h).1])

/-- What stands between a start tag and its end tag is read as the content of the element. -/
theorem Reads.adds_element {s : String} {cs : List Char} {nodes : List Node}
    (hinside : Reads inside cs nodes) (hs : IsText s) (hlabel : isLabel label = true)
    (hattributes : Spells chars attributes)
    (htag : resolveTag bindings label (spelled attributes) = some (found, inside)) :
    Adds bindings (tagAfter (escapeText s) (label ++ chars) ++ cs ++ tagAfter "" ('/' :: label))
      (textNodes s ++ [.element found nodes]) := by
  obtain ⟨front, before, t, rfl, ht, hfront, hready, rfl⟩ := hinside
  have h := Xml.adds_element hs ht hlabel hattributes htag hfront hready
  have htext : tagAfter (escapeText t) ('/' :: label) =
      (escapeText t).toList ++ tagAfter "" ('/' :: label) := by
    simp [tagAfter]
  rw [htext] at h
  simpa only [List.append_assoc] using h

/-- What characters add is determined by the tokens they become. -/
theorem Adds.unique {cs : List Char} {nodes others : List Node} (h : Adds bindings cs nodes)
    (h' : Adds bindings cs others) : nodes = others := by
  obtain ⟨ts, htokens, -, hbuild⟩ := h
  obtain ⟨us, hothers, -, hother⟩ := h'
  obtain rfl : ts = us := Option.some.inj (htokens.tokens.symm.trans hothers.tokens)
  have hclosed : ∀ content : List Node,
      build (.empty false) [⟨['a'], default, bindings, content.reverse ++ []⟩]
        [.tag (.finish ['a'])] = some (.element default content) := by
    intro content
    rw [List.append_nil, build, if_pos rfl, List.reverse_reverse]
    rfl
  have hroot := (hbuild false ['a'] default [] [] [.tag (.finish ['a'])] ready_nil).symm.trans
    (hother false ['a'] default [] [] [.tag (.finish ['a'])] ready_nil)
  rw [hclosed, hclosed] at hroot
  exact (Node.element.inj (Option.some.inj hroot)).2

/-- Characters between tags are read as one content only. -/
theorem Reads.unique {cs : List Char} {nodes others : List Node} (h : Reads bindings cs nodes)
    (h' : Reads bindings cs others) : nodes = others := by
  have htag : ∃ found, resolveTag bindings ['a'] (spelled []) = some (found, bindings) := ⟨_, rfl⟩
  obtain ⟨found, htag⟩ := htag
  have hempty : IsText "" := by simp [IsText]
  have hadds := (h.adds_element hempty (by decide) spells_nil htag).unique
    (h'.adds_element hempty (by decide) spells_nil htag)
  rw [textNodes, if_pos rfl, List.nil_append, List.nil_append] at hadds
  exact (Node.element.inj (List.cons.inj hadds).1).2

end Build

end Wadl.Xml
