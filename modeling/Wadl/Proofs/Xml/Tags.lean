import Mathlib.Data.List.TakeWhile
import Wadl.Document.Outline
import Wadl.Proofs.Xml.Quoting

/-!
# Written tags read back

A written tag is cut out of the document where it ends (`chunksFrom_tagAfter`): the marks that would
end it earlier stand only between quotes. What is cut out is read as the label and the attributes
that were written (`readTag_start`, `readTag_finish`). So characters that end with a tag become the
same tokens whatever follows them (`Tokenizes`).
-/

namespace Wadl.Xml

/-! ## Where a tag ends -/

/-- A tag that is no comment, section or instruction, by its first character. -/
def Begun (acc : List Char) : Prop := ∃ c, acc.getLast? = some c ∧ c ≠ '!' ∧ c ≠ '?'

/-- Once a tag has begun, it stays begun; so also for several characters. -/
theorem Begun.cons {acc : List Char} (h : Begun acc) (c : Char) : Begun (c :: acc) := by
  obtain ⟨d, hd, hne⟩ := h
  refine ⟨d, ?_, hne⟩
  rw [List.getLast?_cons, hd]
  rfl

theorem Begun.append {acc : List Char} (h : Begun acc) : ∀ cs : List Char, Begun (cs ++ acc)
  | [] => h
  | c :: cs => (h.append cs).cons c

/-- In a tag that has begun, reading goes on as in a tag. -/
theorem tagMode_of_begun {acc : List Char} (h : Begun acc) : tagMode acc = .tag acc none := by
  obtain ⟨c, hc, hbang, hquery⟩ := h
  unfold tagMode
  rw [if_neg, if_neg, if_neg]
  · rintro rfl
    exact hquery (Option.some.inj hc).symm
  · rintro rfl
    exact hbang (Option.some.inj hc).symm
  · rintro rfl
    exact hbang (Option.some.inj hc).symm

/-- A text inside a tag that is read over. -/
def Passes (cs : List Char) : Prop :=
  ∀ acc rest, Begun acc →
    chunksFrom (.tag acc none) (cs ++ rest) = chunksFrom (.tag (cs.reverse ++ acc) none) rest

theorem passes_nil : Passes [] := fun _ _ _ => rfl

/-- Pieces that stay within a tag do so one after the other. -/
theorem Passes.append {cs ds : List Char} (hcs : Passes cs) (hds : Passes ds) :
    Passes (cs ++ ds) := by
  intro acc rest hacc
  rw [List.append_assoc, hcs acc _ hacc, hds _ rest (hacc.append _), List.reverse_append,
    List.append_assoc]

/-- Characters that mean something inside a tag, or before it. -/
def tagMarks : List Char := [' ', '\t', '\n', '\r', '/', '=', '<', '>', '"', '\'', '!', '?']

/-- A character that is neither a bracket nor a quote stays within the tag. -/
theorem passes_singleton {c : Char} (hc : c ∉ ['<', '>', '"', '\'']) : Passes [c] := by
  intro acc rest hacc
  simp only [List.mem_cons, List.not_mem_nil, or_false, not_or] at hc
  rw [List.singleton_append, chunksFrom, if_neg hc.2.1, if_neg hc.1, if_neg (by simp [hc.2.2]),
    tagMode_of_begun (hacc.cons c)]
  rfl

theorem passes_of_plain : ∀ {cs : List Char}, (∀ c ∈ cs, c ∉ ['<', '>', '"', '\'']) → Passes cs
  | [], _ => passes_nil
  | c :: cs, h => by
    obtain ⟨hc, hcs⟩ := List.forall_mem_cons.1 h
    exact (passes_singleton hc).append (passes_of_plain hcs)

/-- A quoted value stays within the tag, brackets included. -/
theorem passes_quoted {quote : Char} {body : List Char} (hquote : quote = '"' ∨ quote = '\'')
    (hbody : quote ∉ body) : Passes (quote :: (body ++ [quote])) := by
  have hinside : ∀ {cs acc rest : List Char}, quote ∉ cs →
      chunksFrom (.tag acc (some quote)) (cs ++ rest) =
        chunksFrom (.tag (cs.reverse ++ acc) (some quote)) rest := by
    intro cs
    induction cs with
    | nil => exact fun _ => rfl
    | cons c cs ih =>
      intro acc rest hcs
      rw [List.mem_cons, not_or] at hcs
      rw [List.cons_append, chunksFrom, if_neg (Ne.symm hcs.1), ih hcs.2, List.reverse_cons,
        List.append_assoc, List.singleton_append]
  have hopen : ∀ {acc rest : List Char}, chunksFrom (.tag acc none) (quote :: rest) =
      chunksFrom (.tag (quote :: acc) (some quote)) rest := by
    intro acc rest
    rcases hquote with rfl | rfl <;> rfl
  intro acc rest _
  rw [List.cons_append, hopen, List.append_assoc, hinside hbody, List.singleton_append, chunksFrom,
    if_pos rfl]
  simp

/-- A piece of a document: text, and a tag after it. -/
theorem chunksFrom_tagAfter {text tag rest : List Char} {c : Char} (htext : '<' ∉ text)
    (hc : c ∉ ['<', '>', '"', '\'', '!', '?']) (htag : Passes tag) :
    chunksFrom (.text []) (text ++ '<' :: (c :: tag ++ '>' :: rest)) =
      (chunksFrom (.text []) rest).map fun found =>
        flushText text.reverse (.tag (c :: tag) :: found) := by
  have hskip : ∀ {cs acc rest : List Char}, '<' ∉ cs →
      chunksFrom (.text acc) (cs ++ '<' :: rest) =
        (chunksFrom (.tag [] none) rest).map (flushText (cs.reverse ++ acc)) := by
    intro cs
    induction cs with
    | nil => exact fun _ => rfl
    | cons d cs ih =>
      intro acc rest hcs
      rw [List.mem_cons, not_or] at hcs
      rw [List.cons_append, chunksFrom, if_neg (Ne.symm hcs.1), ih hcs.2, List.reverse_cons,
        List.append_assoc, List.singleton_append]
  simp only [List.mem_cons, List.not_mem_nil, or_false, not_or] at hc
  have hbegun : Begun [c] := ⟨c, rfl, hc.2.2.2.2.1, hc.2.2.2.2.2⟩
  have hfirst : chunksFrom (.tag [] none) (c :: (tag ++ '>' :: rest)) =
      chunksFrom (.tag [c] none) (tag ++ '>' :: rest) := by
    rw [chunksFrom, if_neg hc.2.1, if_neg hc.1, if_neg (by simp [hc.2.2.1, hc.2.2.2.1]),
      tagMode_of_begun hbegun]
  rw [hskip htext, List.append_nil, List.cons_append, hfirst, htag _ _ hbegun,
    chunksFrom, if_pos rfl, Option.map_map, List.reverse_append, List.reverse_reverse]
  rfl

/-! ## Labels and attributes -/

/-- A label without marks. -/
def isLabel (cs : List Char) : Bool := isQualifiedName cs && cs.all (!tagMarks.contains ·)

/-- A label holds none of the marks that tags are read by. -/
theorem notMem_of_isLabel {cs : List Char} (h : isLabel cs = true) :
    ∀ c ∈ cs, c ∉ tagMarks := by
  unfold isLabel at h
  rw [Bool.and_eq_true, List.all_eq_true] at h
  intro c hc
  simpa using h.2 c hc

/-- Each label is a qualified name. -/
theorem qualified_of_isLabel {cs : List Char} (h : isLabel cs = true) :
    isQualifiedName cs = true := by
  unfold isLabel at h
  rw [Bool.and_eq_true] at h
  exact h.1

theorem ne_nil_of_isLabel {cs : List Char} (h : isLabel cs = true) : cs ≠ [] := by
  rintro rfl
  cases qualified_of_isLabel h

/-- Names hold no marks and no colons. -/
theorem notMem_of_isName {cs : List Char} (h : isName cs = true) :
    ∀ c ∈ cs, c ∉ ':' :: '\x7b' :: '\x7d' :: tagMarks := by
  have hmarks : ∀ d ∈ ':' :: '\x7b' :: '\x7d' :: tagMarks,
      isNameStart d = false ∧ isNamePart d = false :=
    List.all_iff_forall_prop.1 (by decide)
  cases cs with
  | nil => cases h
  | cons d cs =>
    rw [isName, Bool.and_eq_true, List.all_eq_true] at h
    intro c hc hmem
    rcases List.mem_cons.1 hc with rfl | hc
    · rw [(hmarks c hmem).1] at h
      cases h.1
    · exact absurd (h.2 c hc) (by simp [(hmarks c hmem).2])

theorem isLabel_of_isName {cs : List Char} (h : isName cs = true) : isLabel cs = true := by
  have hplain : ∀ c ∈ cs, (c != ':') = true := by
    intro c hc
    rw [bne_iff_ne]
    rintro rfl
    exact colon_notMem_of_isName h hc
  have htake : cs.takeWhile (· != ':') = cs := List.takeWhile_eq_self_iff.2 hplain
  have hdrop : cs.dropWhile (· != ':') = [] := List.dropWhile_eq_nil_iff.2 hplain
  rw [isLabel, isQualifiedName, hdrop, htake, Bool.and_eq_true, List.all_eq_true]
  refine ⟨h, fun c hc => ?_⟩
  have hmarks := notMem_of_isName h c hc
  simp only [List.mem_cons, not_or] at hmarks
  simpa using hmarks.2.2.2

/-- A name with a prefix is a label. -/
theorem isLabel_colon {mark label : List Char} (hmark : isName mark = true)
    (hlabel : isName label = true) : isLabel (mark ++ ':' :: label) = true := by
  have hplain : ∀ c ∈ mark, (c != ':') = true := by
    intro c hc
    rw [bne_iff_ne]
    rintro rfl
    exact colon_notMem_of_isName hmark hc
  have hcolon : ':' ∉ tagMarks := by decide
  rw [isLabel, isQualifiedName, List.dropWhile_append_of_pos hplain,
    List.takeWhile_append_of_pos hplain, Bool.and_eq_true, List.all_eq_true]
  refine ⟨by simp [hmark, hlabel], fun c hc => ?_⟩
  have hmarks : c ∉ tagMarks := by
    rcases List.mem_append.1 hc with hc | hc
    · exact notMem_of_isLabel (isLabel_of_isName hmark) c hc
    · rcases List.mem_cons.1 hc with rfl | hc
      · exact hcolon
      · exact notMem_of_isLabel (isLabel_of_isName hlabel) c hc
  simpa using hmarks

/-- An attribute as it follows the label of a tag. -/
def attributeChars (a : String × String) : List Char :=
  ' ' :: (a.1.toList ++ '=' :: attributeQuote a.2 :: (quotedBody a.2 ++ [attributeQuote a.2]))

/-- Attributes are written one after the other. -/
theorem toList_attributeText (attributes : List (String × String)) :
    (Outline.attributeText attributes).toList = attributes.flatMap attributeChars := by
  unfold Outline.attributeText
  rw [String.toList_join, List.flatMap_map]
  congr 1
  funext ⟨name, value⟩
  simp only [String.toList_append, toList_quoteAttribute, attributeChars]
  simp

theorem passes_label {cs : List Char} (h : isLabel cs = true) : Passes cs := by
  refine passes_of_plain fun c hc hmem => notMem_of_isLabel h c hc ?_
  have hmarks : ∀ d ∈ ['<', '>', '"', '\''], d ∈ tagMarks := List.all_iff_forall_prop.1 (by decide)
  exact hmarks c hmem

/-- A written attribute is read as its name and parts that stand for its value. -/
def RawAttribute.Is (raw : RawAttribute) (a : String × String) : Prop :=
  raw.name = a.1.toList ∧ List.Forall₂ Part.Is raw.value a.2.toList

/-- Characters of a tag that are read as some attributes, whatever follows them. -/
structure Spells (cs : List Char) (attributes : List (String × String)) : Prop where
  passes : Passes cs
  begins : ∀ c, cs.head? = some c → c = ' '
  reads : ∃ raws, List.Forall₂ RawAttribute.Is raws attributes ∧
    ∀ rest, attributesFrom (.between false) (cs ++ rest) =
      (attributesFrom (.between false) rest).map fun (found, empty) => (raws ++ found, empty)

theorem spells_nil : Spells [] [] where
  passes := passes_nil
  begins := nofun
  reads := ⟨[], .nil, fun rest => by simp⟩

theorem Spells.append {cs ds : List Char} {attributes more : List (String × String)}
    (hcs : Spells cs attributes) (hds : Spells ds more) :
    Spells (cs ++ ds) (attributes ++ more) where
  passes := hcs.passes.append hds.passes
  begins := by
    cases cs with
    | nil => exact hds.begins
    | cons c cs => exact hcs.begins
  reads := by
    obtain ⟨raws, hraws, hread⟩ := hcs.reads
    obtain ⟨others, hothers, hnext⟩ := hds.reads
    refine ⟨raws ++ others, List.rel_append hraws hothers, fun rest => ?_⟩
    rw [List.append_assoc, hread, hnext, Option.map_map]
    congr 1
    funext found
    simp

/-- Names and values are read one after the other. -/
theorem attributesFrom_quoted {name body : List Char} {quote : Char} {ps : List Part}
    (hname : isLabel name = true) (hquote : quote = '"' ∨ quote = '\'') (hbody : quote ∉ body)
    (hread : attributeValue body = some ps) (rest : List Char) :
    attributesFrom (.between false) (' ' :: (name ++ '=' :: quote :: (body ++ [quote])) ++ rest) =
      (attributesFrom (.between false) rest).map fun (found, empty) =>
        (⟨name, ps⟩ :: found, empty) := by
  have hrest : ∀ {cs acc rest : List Char}, (∀ c ∈ cs, c ∉ tagMarks) →
      attributesFrom (.name acc) (cs ++ '=' :: rest) =
        attributesFrom (.afterEquals (acc.reverse ++ cs)) rest := by
    intro cs
    induction cs with
    | nil =>
      intro acc rest _
      rw [List.nil_append, attributesFrom, if_pos rfl, List.append_nil]
    | cons c cs ih =>
      intro acc rest hcs
      obtain ⟨hc, hcs⟩ := List.forall_mem_cons.1 hcs
      simp only [tagMarks, List.mem_cons, List.not_mem_nil, or_false, not_or] at hc
      have hequals : c ≠ '=' := hc.2.2.2.2.2.1
      rw [List.cons_append, attributesFrom, if_neg hequals,
        if_neg (by simp [isSpace, hc.1, hc.2.1, hc.2.2.1, hc.2.2.2.1]), ih hcs, List.reverse_cons,
        List.append_assoc, List.singleton_append]
  have hinside : ∀ {cs acc rest : List Char}, quote ∉ cs →
      attributesFrom (.value name quote acc) (cs ++ rest) =
        attributesFrom (.value name quote (cs.reverse ++ acc)) rest := by
    intro cs
    induction cs with
    | nil => exact fun _ => rfl
    | cons c cs ih =>
      intro acc rest hcs
      rw [List.mem_cons, not_or] at hcs
      rw [List.cons_append, attributesFrom, if_neg (Ne.symm hcs.1), ih hcs.2, List.reverse_cons,
        List.append_assoc, List.singleton_append]
  have hopen : ∀ {rest : List Char}, attributesFrom (.afterEquals name) (quote :: rest) =
      attributesFrom (.value name quote []) rest := by
    intro rest
    rcases hquote with rfl | rfl <;> rfl
  obtain ⟨c, cs, hcs⟩ := List.exists_cons_of_ne_nil (ne_nil_of_isLabel hname)
  have hmarks := notMem_of_isLabel hname
  rw [hcs] at hmarks
  obtain ⟨hc, htail⟩ := List.forall_mem_cons.1 hmarks
  simp only [tagMarks, List.mem_cons, List.not_mem_nil, or_false, not_or] at hc
  have hstart : ∀ rest,
      attributesFrom (.between true) (c :: rest) = attributesFrom (.name [c]) rest := by
    intro rest
    rw [attributesFrom, if_neg (by simp [isSpace, hc.1, hc.2.1, hc.2.2.1, hc.2.2.2.1]),
      if_neg hc.2.2.2.2.1, if_pos rfl]
  have hshape : ' ' :: (name ++ '=' :: quote :: (body ++ [quote])) ++ rest =
      ' ' :: (c :: (cs ++ '=' :: quote :: (body ++ quote :: rest))) := by
    simp [hcs]
  have hlabel : [c].reverse ++ cs = name := by rw [hcs]; rfl
  rw [hshape, attributesFrom, if_pos (by decide), hstart, hrest htail, hlabel, hopen, hinside hbody,
    attributesFrom, if_pos rfl, List.append_nil, List.reverse_reverse, hread,
    qualified_of_isLabel hname]
  cases attributesFrom (.between false) rest <;> rfl

/-- A name with a value between quotes spells an attribute. -/
theorem spells_quoted {name value : String} {body : List Char} {quote : Char} {ps : List Part}
    (hname : isLabel name.toList = true) (hquote : quote = '"' ∨ quote = '\'')
    (hbody : quote ∉ body) (hread : attributeValue body = some ps)
    (hps : List.Forall₂ Part.Is ps value.toList) :
    Spells (' ' :: (name.toList ++ '=' :: quote :: (body ++ [quote]))) [(name, value)] where
  passes := by
    have hspace : Passes [' '] := passes_singleton (by decide)
    have hequals : Passes ['='] := passes_singleton (by decide)
    exact hspace.append ((passes_label hname).append (hequals.append (passes_quoted hquote hbody)))
  begins := fun _ h => (Option.some.inj h).symm
  reads :=
    ⟨[⟨name.toList, ps⟩], .cons ⟨rfl, hps⟩ .nil, attributesFrom_quoted hname hquote hbody hread⟩

/-- If each attribute is spelled, all are. -/
theorem spells_flatMap {chars : String × String → List Char} :
    ∀ {attributes : List (String × String)}, (∀ a ∈ attributes, Spells (chars a) [a]) →
      Spells (attributes.flatMap chars) attributes
  | [], _ => spells_nil
  | a :: attributes, h => by
    obtain ⟨ha, hrest⟩ := List.forall_mem_cons.1 h
    exact ha.append (spells_flatMap hrest)

/-- Written attributes are read back in order. -/
theorem spells_attributeChars {attributes : List (String × String)}
    (h : ∀ a ∈ attributes, isLabel a.1.toList = true ∧ IsText a.2) :
    Spells (attributes.flatMap attributeChars) attributes := by
  refine spells_flatMap fun a ha => ?_
  obtain ⟨hname, hvalue⟩ := h a ha
  obtain ⟨ps, hps, hall⟩ := attributeValue_quoted hvalue
  have hquote := (attributeQuote_eq a.2).imp_right And.left
  exact spells_quoted hname hquote (fun hmem => (mem_quotedBody hmem).1 rfl) hps hall

/-- An attribute with its value between double quotes. -/
def doubleQuoted (a : String × String) : List Char :=
  ' ' :: (a.1.toList ++ '=' :: '"' :: ((escapeAttribute a.2).toList ++ ['"']))

/-- So are attributes that are all written between double quotes. -/
theorem spells_doubleQuoted {attributes : List (String × String)}
    (h : ∀ a ∈ attributes, isLabel a.1.toList = true ∧ IsText a.2) :
    Spells (attributes.flatMap doubleQuoted) attributes := by
  refine spells_flatMap fun a ha => ?_
  obtain ⟨hname, hvalue⟩ := h a ha
  obtain ⟨ps, hps, hall⟩ := attributeValue_escapeAttribute hvalue
  exact spells_quoted hname (Or.inl rfl) (fun hmem => (mem_escapeAttribute hmem).1 rfl) hps hall

/-! ## Tags -/

/-- What is read up to the first space or slash. -/
theorem takeWhile_label {label rest : List Char} {p : Char → Bool}
    (hlabel : ∀ c ∈ label, p c = true) (hrest : ∀ c, rest.head? = some c → p c = false) :
    (label ++ rest).takeWhile p = label ∧ (label ++ rest).dropWhile p = rest := by
  rw [List.takeWhile_append_of_pos hlabel, List.dropWhile_append_of_pos hlabel]
  cases rest with
  | nil => simp
  | cons c cs => simp [hrest c rfl]

/-- What ends a start tag, and whether its element is an empty one. -/
inductive TagEnd : List Char → Bool → Prop where
  | plain : TagEnd [] false
  | empty : TagEnd ['/'] true
  | spaced : TagEnd [' ', '/'] true

/-- A start tag is read as its label and its attributes. -/
theorem readTag_start {label chars tail : List Char} {empty : Bool}
    {attributes : List (String × String)} (hlabel : isLabel label = true)
    (hattributes : Spells chars attributes) (htail : TagEnd tail empty) :
    ∃ raws, readTag (label ++ (chars ++ tail)) = some (.start label raws empty) ∧
      List.Forall₂ RawAttribute.Is raws attributes := by
  have hend : attributesFrom (.between false) tail = some ([], empty) := by
    cases htail <;> rfl
  obtain ⟨raws, hall, hraws⟩ := hattributes.reads
  refine ⟨raws, ?_, hall⟩
  have hplain : ∀ c ∈ label, (!endsName c) = true := by
    intro c hc
    have hmarks := notMem_of_isLabel hlabel c hc
    simp only [tagMarks, List.mem_cons, List.not_mem_nil, or_false, not_or] at hmarks
    simp [endsName, isSpace, hmarks]
  have hhead : ∀ c, (chars ++ tail).head? = some c → (!endsName c) = false := by
    intro c hc
    cases chars with
    | nil =>
      cases htail with
      | plain => cases hc
      | empty =>
        obtain rfl := Option.some.inj hc
        rfl
      | spaced =>
        obtain rfl := Option.some.inj hc
        rfl
    | cons d chars =>
      rw [hattributes.begins c hc]
      rfl
  obtain ⟨htake, hdrop⟩ := takeWhile_label hplain hhead
  unfold readTag
  split
  · -- no label begins with a slash
    rename_i rest heq
    obtain ⟨c, cs, hcs⟩ := List.exists_cons_of_ne_nil (ne_nil_of_isLabel hlabel)
    rw [hcs, List.cons_append] at heq
    have hc : c ∉ tagMarks := notMem_of_isLabel hlabel c (by rw [hcs]; exact List.mem_cons_self)
    rw [(List.cons.inj heq).1] at hc
    exact absurd (by decide) hc
  · simp only [htake, hdrop]
    rw [if_pos (qualified_of_isLabel hlabel), hraws, hend]
    simp

/-- An end tag is read as its label. -/
theorem readTag_finish {label : List Char} (hlabel : isLabel label = true) :
    readTag ('/' :: label) = some (.finish label) := by
  have hplain : ∀ c ∈ label, (!isSpace c) = true := by
    intro c hc
    have hmarks := notMem_of_isLabel hlabel c hc
    simp only [tagMarks, List.mem_cons, List.not_mem_nil, or_false, not_or] at hmarks
    simp [isSpace, hmarks]
  have hhead : ∀ c, ([] : List Char).head? = some c → (!isSpace c) = false := by simp
  obtain ⟨htake, hdrop⟩ := takeWhile_label hplain hhead
  rw [List.append_nil] at htake hdrop
  unfold readTag
  simp only [htake, hdrop, qualified_of_isLabel hlabel]
  simp

/-! ## Tokens -/

/-- Some characters that become some tokens, whatever follows them. -/
def Tokenizes (cs : List Char) (ts : List Token) : Prop :=
  ∃ found, (∀ rest, chunksFrom (.text []) (cs ++ rest) =
    (chunksFrom (.text []) rest).map (found ++ ·)) ∧ found.mapM Chunk.token? = some ts

theorem tokenizes_nil : Tokenizes [] [] := by
  refine ⟨[], fun rest => ?_, rfl⟩
  simp

/-- Tokens of texts in a row are those of each of them. -/
theorem Tokenizes.append {cs ds : List Char} {ts us : List Token} (hcs : Tokenizes cs ts)
    (hds : Tokenizes ds us) : Tokenizes (cs ++ ds) (ts ++ us) := by
  obtain ⟨found, hfound, hts⟩ := hcs
  obtain ⟨more, hmore, hus⟩ := hds
  refine ⟨found ++ more, fun rest => ?_, ?_⟩
  · rw [List.append_assoc, hfound, hmore, Option.map_map]
    congr 1
    funext rest
    rw [Function.comp_apply, List.append_assoc]
  · rw [List.mapM_append, hts, hus]
    rfl

/-- A text that yields its tokens in front of any other does so in front of one that can be read. -/
theorem tokens_append {cs rest : List Char} {ts us : List Token} (hcs : Tokenizes cs ts)
    (hrest : tokens rest = some us) : tokens (cs ++ rest) = some (ts ++ us) := by
  obtain ⟨found, hfound, hts⟩ := hcs
  obtain ⟨more, hmore, hus⟩ := Option.bind_eq_some_iff.1 hrest
  unfold chunks at hmore
  unfold tokens chunks
  rw [hfound, hmore]
  simp only [Option.map_some, Option.bind_eq_bind, Option.bind_some]
  rw [List.mapM_append, hts, hus]
  rfl

theorem Tokenizes.tokens {cs : List Char} {ts : List Token} (h : Tokenizes cs ts) :
    Xml.tokens cs = some ts := by
  have hend : Xml.tokens (cs ++ []) = some (ts ++ []) := tokens_append h rfl
  rwa [List.append_nil, List.append_nil] at hend

/-- Without a bracket there is no end of a section. -/
theorem holdsSectionEnd_of_notMem : ∀ {cs : List Char}, '>' ∉ cs → holdsSectionEnd cs = false
  | [], _ => rfl
  | c :: cs, h => by
    have ih := holdsSectionEnd_of_notMem fun hmem => h (List.mem_cons_of_mem c hmem)
    unfold holdsSectionEnd
    split
    · rename_i heq
      exact absurd (by rw [heq]; simp) h
    · rename_i heq
      rw [← (List.cons.inj heq).2, ih]
    · rfl

/-- The token of a text, if there is any. -/
def textToken (s : String) (ps : List Part) : List Token := if s = "" then [] else [.text ps]

/-- Escaped text with a tag after it becomes the token of the text and the one of the tag. -/
theorem tokenizes_tagAfter {s : String} (hs : IsText s) {c : Char} {tag : List Char} {raw : RawTag}
    (hc : c ∉ ['<', '>', '"', '\'', '!', '?']) (htag : Passes tag)
    (hread : readTag (c :: tag) = some raw) :
    ∃ ps, List.Forall₂ Part.Is ps s.toList ∧
      Tokenizes ((escapeText s).toList ++ '<' :: (c :: tag ++ ['>']))
        (textToken s ps ++ [.tag raw]) := by
  obtain ⟨ps, hps, hall⟩ := parts_escapeText hs
  have htoken : Chunk.token? (.text (escapeText s).toList) = some (.text ps) := by
    have hend : holdsSectionEnd (escapeText s).toList = false :=
      holdsSectionEnd_of_notMem fun hmem => (mem_escapeText hmem).2 rfl
    rw [Chunk.token?, if_neg (by rw [hend]; exact Bool.false_ne_true), hps]
    rfl
  have htagToken : Chunk.token? (.tag (c :: tag)) = some (.tag raw) := by
    rw [Chunk.token?, hread]
    rfl
  refine ⟨ps, hall, flushText (escapeText s).toList.reverse [.tag (c :: tag)], fun rest => ?_, ?_⟩
  · have htext : '<' ∉ (escapeText s).toList := fun hmem => (mem_escapeText hmem).1 rfl
    have hflush : ∀ found : List Chunk,
        flushText (escapeText s).toList.reverse (.tag (c :: tag) :: found) =
          flushText (escapeText s).toList.reverse [.tag (c :: tag)] ++ found := by
      intro found
      unfold flushText
      split <;> rfl
    have hsplit : (escapeText s).toList ++ '<' :: (c :: tag ++ ['>']) ++ rest =
        (escapeText s).toList ++ '<' :: (c :: tag ++ '>' :: rest) := by
      rw [List.append_assoc, List.cons_append, List.append_assoc, List.singleton_append]
    rw [hsplit, chunksFrom_tagAfter htext hc htag]
    exact congrArg (Option.map · _) (funext hflush)
  · by_cases hempty : s = ""
    · subst hempty
      rw [textToken, if_pos rfl]
      show [Chunk.tag (c :: tag)].mapM Chunk.token? = _
      rw [List.mapM_cons, htagToken]
      rfl
    · have hne : (escapeText s).toList.reverse.isEmpty = false := by
        rw [List.isEmpty_reverse, toList_escapeText]
        obtain ⟨d, ds, hds⟩ := List.exists_cons_of_ne_nil (by simpa using hempty : s.toList ≠ [])
        obtain ⟨p, -, hread⟩ := partsFrom_textChar (hs d (by rw [hds]; exact List.mem_cons_self))
        rw [hds, List.flatMap_cons]
        cases hd : textChar d with
        | nil =>
          -- what is written for a character is read as one part
          have hnil := hread []
          rw [hd] at hnil
          simp [partsFrom] at hnil
        | cons => rfl
      rw [textToken, if_neg hempty, flushText, if_neg (by simp [hne]), List.reverse_reverse,
        List.mapM_cons, List.mapM_cons, htoken, htagToken]
      rfl

end Wadl.Xml
