import Wadl.Proofs.Text.Pieces
import Wadl.Proofs.Xml.Names

/-!
# Characters that are read

A document that is read gives only characters that documents may hold, in attribute values, those of
declared defaults and replaced entities included, and in text, and only names that can be written
again (`proper_readText`). Each stage of the reading checks the characters itself, so no stage
depends on what an earlier one let pass.
-/

namespace Wadl.Xml

/-- The tags and the text of a piece, and of all pieces in it, satisfy conditions; `M` says whether
there may be comments and instructions. -/
inductive Node.All (T : Tag → Prop) (V : String → Prop) (M : Prop) : Node → Prop where
  | element {tag : Tag} {content : List Node} (attributes : T tag)
      (inside : ∀ n ∈ content, n.All T V M) : Node.All T V M (.element tag content)
  | text {s : String} (h : V s) : Node.All T V M (.text s)
  | comment {s : String} (h : M) : Node.All T V M (.comment s)
  | instruction {s : String} (h : M) : Node.All T V M (.instruction s)

/-- What holds of all tags, texts and marks may be weakened. -/
theorem Node.All.mono {T T' : Tag → Prop} {V V' : String → Prop} {M M' : Prop}
    (hT : ∀ t, T t → T' t) (hV : ∀ s, V s → V' s) (hM : M → M') {n : Node} (h : n.All T V M) :
    n.All T' V' M' := by
  induction h with
  | element htag _ ih => exact .element (hT _ htag) ih
  | text hs => exact .text (hV _ hs)
  | comment h => exact .comment (hM h)
  | instruction h => exact .instruction (hM h)

/-- Attribute values and text of a piece, and of all pieces in it, satisfy a condition. -/
abbrev Node.Holds (V : String → Prop) : Node → Prop :=
  Node.All (fun tag => ∀ a ∈ tag.attributes, V a.2) V True

theorem Node.holds_of_forall {V : String → Prop} (h : ∀ s, V s) (n : Node) : n.Holds V := by
  cases n with
  | element tag content => exact .element (fun a _ => h a.2) fun n hn => holds_of_forall h n
  | text s => exact .text (h s)
  | comment s => exact .comment trivial
  | instruction s => exact .instruction trivial

/-- A text that stands between tags: there is one, and a document may hold it. -/
def IsPiece (s : String) : Prop := s ≠ "" ∧ IsText s

/-- The tags of a piece have proper names, and its texts can stand in a document. -/
abbrev Node.Proper : Node → Prop := Node.All Tag.Proper IsPiece True

/-! ## Character data -/

/-- The character of a part is one that a document may hold. -/
def Part.Clean : Part → Prop
  | .plain c => isChar c = true
  | .referred c => isChar c = true
  | .entity _ => True

/-- A number that a reference may stand for is that of a character of documents. -/
theorem isChar_charOf {n : Nat} {c : Char} (h : charOf? n = some c) : isChar c = true := by
  by_cases hvalid : n.isValidChar
  · have hchar : charOf? n =
        if isChar (Char.ofNatAux n hvalid) then some (Char.ofNatAux n hvalid) else none :=
      dif_pos hvalid
    rw [hchar, Option.ite_none_right_eq_some] at h
    exact Option.some.inj h.2 ▸ h.1
  · have hnone : charOf? n = none := dif_neg hvalid
    rw [hnone] at h
    cases h

theorem clean_of_code {x : Option Nat} {p : Part} (h : (x.bind charOf?).map .referred = some p) :
    p.Clean := by
  obtain ⟨c, hc, rfl⟩ := Option.map_eq_some_iff.1 h
  obtain ⟨n, -, hn⟩ := Option.bind_eq_some_iff.1 hc
  exact isChar_charOf hn

/-- What a reference stands for is a character of documents, or an entity. -/
theorem clean_reference {cs : List Char} {p : Part} (h : reference cs = some p) : p.Clean := by
  unfold reference at h
  split at h
  · exact clean_of_code h
  · exact clean_of_code h
  · split at h
    · rename_i c hlookup
      rw [← Option.some.inj h]
      have hall : ∀ e ∈ predefined, isChar e.2 = true := by decide
      have hmem := (List.lookup_eq_some_iff.1 hlookup)
      obtain ⟨before, after, hpre, -⟩ := hmem
      refine hall (cs, c) ?_
      rw [hpre]
      simp
    · split at h
      · rw [← Option.some.inj h]
        trivial
      · cases h

/-- The parts of a text are clean. -/
theorem clean_partsFrom :
    ∀ {cs : List Char} {acc : Option (List Char)} {ps : List Part}, partsFrom acc cs = some ps →
      ∀ p ∈ ps, p.Clean
  | [], none, ps, h => by
    obtain rfl : [] = ps := Option.some.inj h
    simp
  | [], some acc, ps, h => by cases h
  | c :: cs, none, ps, h => by
    unfold partsFrom at h
    split at h
    · exact clean_partsFrom h
    · split at h
      · rename_i hc
        obtain ⟨rest, hrest, rfl⟩ := Option.map_eq_some_iff.1 h
        exact List.forall_mem_cons.2 ⟨hc, clean_partsFrom hrest⟩
      · cases h
  | c :: cs, some acc, ps, h => by
    unfold partsFrom at h
    split at h
    · simp only [Option.bind_eq_bind, Option.bind_eq_some_iff] at h
      obtain ⟨part, hpart, rest, hrest, h⟩ := h
      rw [← Option.some.inj h]
      exact List.forall_mem_cons.2 ⟨clean_reference hpart, clean_partsFrom hrest⟩
    · exact clean_partsFrom h

theorem clean_attributeValue {raw : List Char} {ps : List Part} (h : attributeValue raw = some ps) :
    ∀ p ∈ ps, p.Clean := by
  unfold attributeValue at h
  split at h
  · cases h
  · obtain ⟨found, hfound, rfl⟩ := Option.map_eq_some_iff.1 h
    intro p hp
    obtain ⟨q, hq, rfl⟩ := List.mem_map.1 hp
    have hclean := clean_partsFrom hfound q hq
    cases q with
    | plain c =>
      show isChar (if isSpace c then ' ' else c) = true
      split
      · rfl
      · exact hclean
    | referred c => exact hclean
    | entity name => trivial

/-! ## Tokens -/

/-- An attribute has a name of XML, and its characters are ones that a document may hold. -/
def RawAttribute.Clean (a : RawAttribute) : Prop :=
  isQualifiedName a.name = true ∧ ∀ p ∈ a.value, p.Clean

/-- The names in a token are names of XML, and the characters that are kept are ones that a document
may hold. -/
def Token.Clean : Token → Prop
  | .text parts => ∀ p ∈ parts, p.Clean
  | .literal cs => ∀ c ∈ cs, isChar c = true
  | .tag (.start name attributes _) => isQualifiedName name = true ∧ ∀ a ∈ attributes, a.Clean
  | _ => True

/-- The attributes of a tag have qualified names and clean values, whatever part of the tag is being
read. -/
theorem clean_attributesFrom :
    ∀ {cs : List Char} {state : AttributeState} {found : List RawAttribute × Bool},
      attributesFrom state cs = some found → ∀ a ∈ found.1, a.Clean
  | [], state, found, h => by
    cases state with
    | between spaced =>
      obtain rfl : ([], false) = found := Option.some.inj h
      simp
    | closed =>
      obtain rfl : ([], true) = found := Option.some.inj h
      simp
    | _ => cases h
  | c :: cs, state, found, h => by
    cases state with
    | between spaced =>
      unfold attributesFrom at h
      split at h
      · exact clean_attributesFrom h
      · split at h
        · exact clean_attributesFrom h
        · split at h
          · exact clean_attributesFrom h
          · cases h
    | name acc =>
      unfold attributesFrom at h
      split at h
      · exact clean_attributesFrom h
      · split at h
        · exact clean_attributesFrom h
        · exact clean_attributesFrom h
    | afterName name =>
      unfold attributesFrom at h
      split at h
      · exact clean_attributesFrom h
      · split at h
        · exact clean_attributesFrom h
        · cases h
    | afterEquals name =>
      unfold attributesFrom at h
      split at h
      · exact clean_attributesFrom h
      · split at h
        · exact clean_attributesFrom h
        · cases h
    | value name quote acc =>
      unfold attributesFrom at h
      split at h
      · simp only [Option.bind_eq_bind, Option.bind_eq_some_iff] at h
        obtain ⟨value, hvalue, ⟨rest, empty⟩, hrest, h⟩ := h
        split at h
        · rename_i hname
          rw [← Option.some.inj h]
          exact List.forall_mem_cons.2
            ⟨⟨hname, clean_attributeValue hvalue⟩, clean_attributesFrom hrest⟩
        · cases h
      · exact clean_attributesFrom h
    | closed => cases h

/-- A tag that is read has qualified names. -/
theorem clean_readTag {cs : List Char} {tag : RawTag} (h : readTag cs = some tag) :
    (Token.tag tag).Clean := by
  unfold readTag at h
  split at h
  · simp only at h
    split at h
    · rw [← Option.some.inj h]
      trivial
    · cases h
  · simp only at h
    split at h
    · rename_i hname
      obtain ⟨found, hfound, rfl⟩ := Option.map_eq_some_iff.1 h
      exact ⟨hname, clean_attributesFrom hfound⟩
    · cases h

theorem clean_token {chunk : Chunk} {token : Token} (h : chunk.token? = some token) :
    token.Clean := by
  cases chunk with
  | text cs =>
    simp only [Chunk.token?] at h
    split at h
    · cases h
    · obtain ⟨ps, hps, rfl⟩ := Option.map_eq_some_iff.1 h
      exact clean_partsFrom hps
  | tag cs =>
    obtain ⟨tag, htag, rfl⟩ := Option.map_eq_some_iff.1 h
    exact clean_readTag htag
  | comment cs =>
    simp only [Chunk.token?] at h
    split at h
    · rw [← Option.some.inj h]
      trivial
    · cases h
  | cdata cs =>
    simp only [Chunk.token?] at h
    split at h
    · rename_i hcs
      rw [← Option.some.inj h]
      exact List.all_eq_true.1 hcs
    · cases h
  | instruction cs =>
    obtain ⟨data, -, rfl⟩ := Option.map_eq_some_iff.1 h
    trivial

/-- A document is read as clean tokens. -/
theorem clean_tokens {cs : List Char} {ts : List Token} (h : tokens cs = some ts) :
    ∀ t ∈ ts, t.Clean := by
  obtain ⟨found, -, h⟩ := Option.bind_eq_some_iff.1 h
  exact forall_mem_of_mapM h fun _ _ _ => clean_token

/-- Replacing entities brings in only what is read off their texts. -/
theorem clean_expandTokens :
    ∀ {fuel : Nat} {entities : List (List Char × Entity)} {content ts : List Token},
      expandTokens fuel entities content = some ts → (∀ t ∈ content, t.Clean) → ∀ t ∈ ts, t.Clean
  | 0, _, _, _, h, _ => by cases h
  | fuel + 1, entities, content, ts, h, hcontent => by
    unfold expandTokens at h
    obtain ⟨found, hfound, rfl⟩ := Option.map_eq_some_iff.1 h
    have hall : ∀ group ∈ found, ∀ t ∈ group, t.Clean := by
      refine forall_mem_of_mapM hfound fun token htoken group hgroup => ?_
      have hclean := hcontent token htoken
      split at hgroup
      · split at hgroup
        · obtain ⟨pieces, hpieces, rfl⟩ := Option.map_eq_some_iff.1 hgroup
          have hpiece : ∀ piece ∈ pieces, ∀ t ∈ piece, t.Clean := by
            refine forall_mem_of_mapM hpieces fun part hpart piece hpiece => ?_
            split at hpiece
            · split at hpiece
              · simp only [Option.bind_eq_bind, Option.bind_eq_some_iff] at hpiece
                obtain ⟨ts', hts', inner, hinner, hpiece⟩ := hpiece
                split at hpiece
                · rw [← Option.some.inj hpiece]
                  exact clean_expandTokens hinner (clean_tokens hts')
                · cases hpiece
              · cases hpiece
            · rw [← Option.some.inj hpiece, List.forall_mem_singleton]
              exact List.forall_mem_singleton.2 (hclean part hpart)
          intro t ht
          obtain ⟨piece, hmem, ht⟩ := List.mem_flatten.1 ht
          exact hpiece piece hmem t ht
        · rw [← Option.some.inj hgroup, List.forall_mem_singleton]
          exact hclean
      · rw [← Option.some.inj hgroup, List.forall_mem_singleton]
        exact hclean
    intro t ht
    obtain ⟨group, hmem, ht⟩ := List.mem_flatten.1 ht
    exact hall group hmem t ht

/-! ## Declarations -/

/-- The declared attributes have names of XML, and their defaults hold only characters that a
document may hold. -/
def Doctype.Clean (d : Doctype) : Prop :=
  ∀ a ∈ d.attributes, isQualifiedName a.name = true ∧
    ∀ value, a.default = some value → ∀ c ∈ value, isChar c = true

namespace Doctype

variable {d d' : Doctype} {cs rest : List Char}

/-- The value of an entity is one of characters of documents, however deep entities stand in it. -/
theorem isChar_valueText {lenient : Bool} :
    ∀ {fuel : Nat} {entities : List (List Char × Entity)} {ps : List Part} {value : List Char},
      valueText lenient fuel entities ps = some value → (∀ p ∈ ps, p.Clean) →
        ∀ c ∈ value, isChar c = true
  | 0, _, _, _, h, _ => by cases h
  | fuel + 1, entities, ps, value, h, hps => by
    unfold valueText at h
    obtain ⟨found, hfound, rfl⟩ := Option.map_eq_some_iff.1 h
    have hall : ∀ piece ∈ found, ∀ c ∈ piece, isChar c = true := by
      refine forall_mem_of_mapM hfound fun part hpart piece hpiece => ?_
      have hclean := hps part hpart
      split at hpiece
      · rw [← Option.some.inj hpiece, List.forall_mem_singleton]
        exact hclean
      · rw [← Option.some.inj hpiece, List.forall_mem_singleton]
        exact hclean
      · split at hpiece
        · obtain ⟨inner, hinner, hpiece⟩ := Option.bind_eq_some_iff.1 hpiece
          exact isChar_valueText hpiece (clean_attributeValue hinner)
        · cases hpiece
        · split at hpiece
          · rw [← Option.some.inj hpiece]
            simp
          · cases hpiece
    intro c hc
    obtain ⟨piece, hmem, hc⟩ := List.mem_flatten.1 hc
    exact hall piece hmem c hc

/-- The pieces between the spaces of a text hold only its characters. -/
theorem mem_spacedPieces (cs : List Char) :
    ∀ w ∈ cs.foldr (fun c (acc : List (List Char)) =>
      if c = ' ' then [] :: acc
      else match acc with
        | [] => [[c]]
        | w :: ws => (c :: w) :: ws) [[]], ∀ c ∈ w, c ∈ cs := by
  induction cs with
  | nil => simp
  | cons d cs ih =>
    rw [List.foldr_cons]
    split
    · intro w hw c hc
      rcases List.mem_cons.1 hw with rfl | hw
      · cases hc
      · exact List.mem_cons_of_mem d (ih w hw c hc)
    · split
      · intro w hw c hc
        rw [List.mem_singleton.1 hw, List.mem_singleton] at hc
        rw [hc]
        exact List.mem_cons_self
      · rename_i v vs hvs
        rw [hvs] at ih
        intro w hw c hc
        rcases List.mem_cons.1 hw with rfl | hw
        · rcases List.mem_cons.1 hc with rfl | hc
          · exact List.mem_cons_self
          · exact List.mem_cons_of_mem d (ih v List.mem_cons_self c hc)
        · exact List.mem_cons_of_mem d (ih w (List.mem_cons_of_mem v hw) c hc)

/-- Collapsing spaces adds nothing but spaces. -/
theorem mem_collapseSpaces {c : Char} (h : c ∈ collapseSpaces cs) : c = ' ' ∨ c ∈ cs := by
  unfold collapseSpaces at h
  rcases mem_intercalate h with h | ⟨w, hw, hc⟩
  · exact Or.inl (List.mem_singleton.1 h)
  · exact Or.inr (mem_spacedPieces cs w (List.mem_filter.1 hw).1 c hc)

/-- The value of an attribute has only characters of documents. -/
theorem isChar_value {tokenized : Bool} {ps : List Part} {value : List Char}
    (h : d.value? tokenized ps = some value) (hps : ∀ p ∈ ps, p.Clean) :
    ∀ c ∈ value, isChar c = true := by
  obtain ⟨text, htext, rfl⟩ := Option.map_eq_some_iff.1 h
  intro c hc
  split at hc
  · rcases mem_collapseSpaces hc with rfl | hc
    · rfl
    · exact isChar_valueText htext hps c hc
  · exact isChar_valueText htext hps c hc

theorem clean_empty (standalone : Bool) : (Doctype.empty standalone).Clean := by
  intro a ha
  cases ha

/-- Whether a document type is clean depends on the defaults of attributes only. -/
theorem Clean.of_attributes (hd : d.Clean) (h : d'.attributes = d.attributes) : d'.Clean := by
  intro a ha
  rw [h] at ha
  exact hd a ha

/-- Declaring an entity leaves the attributes as they are. -/
theorem addEntity_attributes {name : List Char} {body : Option (List Char)}
    (h : d.addEntity name body = some d') : d'.attributes = d.attributes := by
  unfold addEntity at h
  split at h
  · rw [Option.some.inj h]
  · split at h
    · rw [← Option.some.inj h]
    · obtain ⟨replacement, -, rfl⟩ := Option.map_eq_some_iff.1 h
      rfl

theorem entity_attributes (h : d.entity? cs = some (d', rest)) : d'.attributes = d.attributes := by
  unfold entity? at h
  simp only [Option.bind_eq_bind, Option.bind_eq_some_iff] at h
  obtain ⟨found, -, h⟩ := h
  split at h
  · simp only [Option.bind_eq_some_iff] at h
    obtain ⟨a, -, b, -, c, -, e, -, f, -, h⟩ := h
    rw [← (Prod.mk.inj (Option.some.inj h)).1]
  · simp only [Option.bind_eq_some_iff] at h
    obtain ⟨⟨name, a⟩, -, b, -, ⟨body, c⟩, -, e, hadd, h⟩ := h
    rw [← (Prod.mk.inj (Option.some.inj h)).1]
    exact addEntity_attributes hadd

/-- A name that is read is qualified. -/
theorem isQualifiedName_name {name : List Char} (h : name? cs = some (name, rest)) :
    isQualifiedName name = true := by
  unfold name? at h
  simp only at h
  split at h
  · rename_i hname
    rwa [← (Prod.mk.inj (Option.some.inj h)).1]
  · cases h

/-- Declaring an attribute with a qualified name keeps a document type clean. -/
theorem Clean.addAttribute {element name : List Char} {type : AttributeType}
    {default : Option (List Char)} (hd : d.Clean) (hname : isQualifiedName name = true)
    (h : d.addAttribute element name type default = some d') : d'.Clean := by
  have hkeep : ∀ {value : Option (List Char)}, (∀ v, value = some v → ∀ c ∈ v, isChar c = true) →
      (Doctype.mk d.entities (d.attributes ++ [⟨element, name, type != .characters, value⟩])
        d.standalone d.refersElsewhere d.passesOver).Clean := by
    intro value hvalue a ha
    rcases List.mem_append.1 ha with ha | ha
    · exact hd a ha
    · rw [List.mem_singleton.1 ha]
      exact ⟨hname, hvalue⟩
  unfold Doctype.addAttribute at h
  split at h
  · rwa [← Option.some.inj h]
  · simp only [Option.bind_eq_bind] at h
    split at h
    · simp only [Option.pure_def, Option.bind_some] at h
      split at h
      · rwa [← Option.some.inj h]
      · rw [← Option.some.inj h]
        exact hkeep (by simp)
    · rename_i raw
      simp only [Option.bind_eq_some_iff, Option.pure_def, Option.bind_some] at h
      obtain ⟨ps, hps, found, hfound, h⟩ := h
      split at h
      · rwa [← Option.some.inj h]
      · rw [← Option.some.inj h]
        refine hkeep fun v hv => ?_
        rw [← Option.some.inj hv]
        exact isChar_value hfound (clean_attributeValue hps)

theorem Clean.attributeDecls {element : List Char} :
    ∀ {fuel : Nat} {d : Doctype} {cs : List Char}, d.Clean →
      attributeDecls? element fuel d cs = some (d', rest) → d'.Clean
  | 0, _, _, _, h => by cases h
  | fuel + 1, d, cs, hd, h => by
    unfold attributeDecls? at h
    split at h
    · rwa [← (Prod.mk.inj (Option.some.inj h)).1]
    · simp only [Option.bind_eq_bind, Option.bind_eq_some_iff] at h
      obtain ⟨a, -, ⟨name, b⟩, hname, e, -, ⟨type, f⟩, -, g, -, ⟨default, i⟩, -,
        added, hadded, h⟩ := h
      exact (hd.addAttribute (isQualifiedName_name hname) hadded).attributeDecls h

theorem Clean.attributeList (hd : d.Clean) (h : d.attributeList? cs = some (d', rest)) :
    d'.Clean := by
  unfold attributeList? at h
  simp only [Option.bind_eq_bind, Option.bind_eq_some_iff] at h
  obtain ⟨a, -, ⟨element, b⟩, -, h⟩ := h
  exact hd.attributeDecls h

/-- All declarations keep a document type clean. -/
theorem Clean.declarations :
    ∀ {fuel : Nat} {d : Doctype} {cs : List Char}, d.Clean →
      declarations? fuel d cs = some (d', rest) → d'.Clean
  | 0, _, _, _, h => by cases h
  | fuel + 1, d, cs, hd, h => by
    unfold declarations? at h
    simp only [Option.bind_eq_bind] at h
    split at h
    · simp only [Option.bind_eq_some_iff] at h
      obtain ⟨⟨found, a⟩, hfound, h⟩ := h
      exact (hd.of_attributes (entity_attributes hfound)).declarations h
    · simp only [Option.bind_eq_some_iff] at h
      obtain ⟨⟨found, a⟩, hfound, h⟩ := h
      exact (hd.attributeList hfound).declarations h
    · rwa [← (Prod.mk.inj (Option.some.inj h)).1]
    · simp only [Option.bind_eq_some_iff] at h
      obtain ⟨a, -, b, -, h⟩ := h
      refine Clean.declarations ?_ h
      exact hd.of_attributes rfl
    · simp only [Option.bind_eq_some_iff] at h
      obtain ⟨a, -, b, -, h⟩ := h
      exact hd.declarations h
    · simp only [Option.bind_eq_some_iff] at h
      obtain ⟨a, -, h⟩ := h
      split at h
      · simp only [Option.bind_eq_some_iff] at h
        obtain ⟨b, -, h⟩ := h
        exact hd.declarations h
      · cases h
    · split at h
      · simp only [Option.bind_eq_some_iff] at h
        obtain ⟨a, -, h⟩ := h
        exact hd.declarations h
      · simp only [Option.bind_eq_some_iff] at h
        obtain ⟨a, -, h⟩ := h
        exact hd.declarations h
      · cases h

/-- The declarations inside a document type declaration, and its end. -/
theorem Clean.inside {outer : Doctype} (houter : outer.Clean)
    (h : (match skipSpace cs with
      | '[' :: more =>
        (declarations? (more.length + 1) outer more).bind fun found =>
          (close? found.2).bind fun rest => some (found.1, rest)
      | _ => (close? cs).bind fun rest => some (outer, rest)) = some (d, rest)) : d.Clean := by
  split at h
  · simp only [Option.bind_eq_some_iff] at h
    obtain ⟨⟨found, e⟩, hfound, f, -, h⟩ := h
    rw [← (Prod.mk.inj (Option.some.inj h)).1]
    exact houter.declarations hfound
  · obtain ⟨f, -, h⟩ := Option.bind_eq_some_iff.1 h
    rwa [← (Prod.mk.inj (Option.some.inj h)).1]

/-- A document type that is read is clean. -/
theorem clean_read {standalone : Bool} (h : read? standalone cs = some (d, rest)) : d.Clean := by
  have helsewhere : ({ Doctype.empty standalone with refersElsewhere := true } : Doctype).Clean :=
    (clean_empty standalone).of_attributes rfl
  unfold read? at h
  simp only [Option.bind_eq_bind, Option.pure_def, Option.bind_some] at h
  obtain ⟨a, -, h⟩ := Option.bind_eq_some_iff.1 h
  obtain ⟨b, -, h⟩ := Option.bind_eq_some_iff.1 h
  split at h
  · obtain ⟨e, -, h⟩ := Option.bind_eq_some_iff.1 h
    obtain ⟨f, -, h⟩ := Option.bind_eq_some_iff.1 h
    exact helsewhere.inside h
  · obtain ⟨e, -, h⟩ := Option.bind_eq_some_iff.1 h
    obtain ⟨f, -, h⟩ := Option.bind_eq_some_iff.1 h
    exact helsewhere.inside h
  · exact (clean_empty standalone).inside h

end Doctype

/-! ## The tree -/

section Tree

variable {d : Doctype}

/-- The prolog of a document gives a clean document type, whatever stands before it. -/
theorem clean_prolog {standalone : Bool} :
    ∀ {fuel : Nat} {found : Option Doctype} {cs rest : List Char}, (∀ e, found = some e → e.Clean) →
      prolog? standalone fuel found cs = some (d, rest) → d.Clean
  | 0, _, _, _, _, h => by cases h
  | fuel + 1, found, cs, rest, hfound, h => by
    unfold prolog? at h
    simp only [Option.bind_eq_bind] at h
    split at h
    · simp only [Option.bind_eq_some_iff] at h
      obtain ⟨a, -, b, -, h⟩ := h
      exact clean_prolog hfound h
    · simp only [Option.bind_eq_some_iff] at h
      obtain ⟨a, -, h⟩ := h
      split at h
      · simp only [Option.bind_eq_some_iff] at h
        obtain ⟨b, -, h⟩ := h
        exact clean_prolog hfound h
      · cases h
    · split at h
      · simp only [Option.bind_eq_some_iff] at h
        obtain ⟨⟨outer, a⟩, houter, h⟩ := h
        refine clean_prolog (fun e he => ?_) h
        rw [← Option.some.inj he]
        exact Doctype.clean_read houter
      · cases h
      · rename_i found _ _ _
        rw [← (Prod.mk.inj (Option.some.inj h)).1]
        cases found with
        | none => exact Doctype.clean_empty standalone
        | some e => exact hfound e rfl

/-- The attributes of an element, those with defaults among them, have qualified names and texts as
values. -/
theorem clean_attributeValues {element : List Char} {attributes : List RawAttribute}
    {values : List (List Char × String)} (hd : d.Clean) (hattributes : ∀ a ∈ attributes, a.Clean)
    (h : attributeValues d element attributes = some values) :
    ∀ v ∈ values, isQualifiedName v.1 = true ∧ IsText v.2 := by
  unfold attributeValues at h
  simp only [Option.bind_eq_bind, Option.bind_eq_some_iff] at h
  obtain ⟨given, hgiven, h⟩ := h
  rw [← Option.some.inj h]
  intro v hv
  rcases List.mem_append.1 hv with hv | hv
  · refine forall_mem_of_mapM (P := fun v => isQualifiedName v.1 = true ∧ IsText v.2) hgiven
      (fun a ha value hvalue => ?_) v hv
    simp only [Option.bind_eq_some_iff] at hvalue
    obtain ⟨cs, hcs, hvalue⟩ := hvalue
    obtain ⟨hname, hclean⟩ := hattributes a ha
    rw [← Option.some.inj hvalue, IsText, String.toList_ofList]
    exact ⟨hname, Doctype.isChar_value hcs hclean⟩
  · obtain ⟨decl, hdecl, hv⟩ := List.mem_filterMap.1 hv
    obtain ⟨value, hvalue, rfl⟩ := Option.map_eq_some_iff.1 hv
    obtain ⟨hname, hclean⟩ := hd decl (List.mem_filter.1 (List.mem_filter.1 hdecl).1).1
    rw [IsText, String.toList_ofList]
    exact ⟨hname, hclean value hvalue⟩

/-- What an element that is still open holds so far. -/
structure OpenElement.Clean (e : OpenElement) : Prop where
  tag : e.tag.Proper
  bindings : e.bindings.Proper
  content : ∀ n ∈ e.content, n.Proper

theorem IsText.append {s t : String} (hs : IsText s) (ht : IsText t) : IsText (s ++ t) := by
  intro c hc
  rw [String.toList_append] at hc
  rcases List.mem_append.1 hc with hc | hc
  · exact hs c hc
  · exact ht c hc

theorem IsPiece.append {s t : String} (hs : IsPiece s) (ht : IsPiece t) : IsPiece (s ++ t) :=
  ⟨by simp [hs.1], hs.2.append ht.2⟩

/-- Adding a text, which may be empty, leaves no empty text. -/
theorem proper_addText {s : String} {content : List Node} (hs : IsText s)
    (hcontent : ∀ n ∈ content, n.Proper) : ∀ n ∈ addNode (.text s) content, n.Proper := by
  unfold addNode
  split
  · rename_i heq
    obtain rfl := Node.text.inj heq
    obtain ⟨ht, hrest⟩ := List.forall_mem_cons.1 hcontent
    cases ht with
    | text ht => exact List.forall_mem_cons.2 ⟨.text ⟨by simp [ht.1], ht.2.append hs⟩, hrest⟩
  · rename_i heq _
    obtain rfl := Node.text.inj heq
    split
    · exact hcontent
    · rename_i hfilled
      exact List.forall_mem_cons.2 ⟨.text ⟨by simpa using hfilled, hs⟩, hcontent⟩
  · rename_i hnone _
    exact absurd rfl (hnone s)

/-- Adding a piece to a content keeps it proper; texts that meet are joined. -/
theorem proper_addNode {node : Node} {content : List Node} (hnode : node.Proper)
    (hcontent : ∀ n ∈ content, n.Proper) : ∀ n ∈ addNode node content, n.Proper := by
  cases hnode with
  | text hs => exact proper_addText hs.2 hcontent
  | element htag hinside => exact List.forall_mem_cons.2 ⟨.element htag hinside, hcontent⟩
  | comment h => exact List.forall_mem_cons.2 ⟨.comment h, hcontent⟩
  | instruction h => exact List.forall_mem_cons.2 ⟨.instruction h, hcontent⟩

/-- An element that ends is proper, and those around it stay clean. -/
theorem clean_finish {node : Node} {stack : List OpenElement} (hnode : node.Proper)
    (hstack : ∀ e ∈ stack, e.Clean) :
    match finish node stack with
    | .inl stack => ∀ e ∈ stack, e.Clean
    | .inr root => root.Proper := by
  cases stack with
  | nil => exact hnode
  | cons e rest =>
    obtain ⟨he, hrest⟩ := List.forall_mem_cons.1 hstack
    exact List.forall_mem_cons.2 ⟨⟨he.tag, he.bindings, proper_addNode hnode he.content⟩, hrest⟩

/-- The bindings of the element around are proper. -/
theorem proper_outer : ∀ stack : List OpenElement, (∀ e ∈ stack, e.Clean) →
    Bindings.Proper (match stack with
      | [] => []
      | e :: _ => e.bindings)
  | [], _ => fun _ hb => absurd hb List.not_mem_nil
  | _ :: _, h => (h _ List.mem_cons_self).bindings

/-- Clean parts make a text of characters of documents. -/
theorem isText_partsText {ps : List Part} (h : ∀ p ∈ ps, p.Clean) : IsText (partsText ps) := by
  unfold IsText partsText
  rw [String.toList_ofList]
  intro c hc
  obtain ⟨p, hp, rfl⟩ := List.mem_map.1 hc
  cases p with
  | plain c => exact h _ hp
  | referred c => exact h _ hp
  | entity name => rfl

/-- An element that ends is clean wherever it is added, and if it is the root. -/
theorem proper_finished {ts : List Token} {root node : Node} {stack : List OpenElement}
    (hnode : node.Proper) (hstack : ∀ e ∈ stack, e.Clean)
    (hbuild : ∀ {stack : List OpenElement}, (∀ e ∈ stack, e.Clean) →
      build d stack ts = some root → root.Proper)
    (h : (match finish node stack with
      | .inl stack => build d stack ts
      | .inr root => if ts.all isTrailing then some root else none) = some root) :
    root.Proper := by
  have hclean := clean_finish hnode hstack
  split at h
  · rename_i after hafter
    rw [hafter] at hclean
    exact hbuild hclean h
  · rename_i found hfound
    rw [hfound] at hclean
    split at h
    · rwa [← Option.some.inj h]
    · cases h

/-- Clean tokens build a proper tree, by induction on the tokens with the open elements as state. -/
theorem proper_build (hd : d.Clean) :
    ∀ {ts : List Token} {stack : List OpenElement} {root : Node}, (∀ t ∈ ts, t.Clean) →
      (∀ e ∈ stack, e.Clean) → build d stack ts = some root → root.Proper
  | [], stack, root, _, _, h => by
    unfold build at h
    cases h
  | t :: ts, stack, root, hts, hstack, h => by
    obtain ⟨ht, hrest⟩ := List.forall_mem_cons.1 hts
    have hbuild : ∀ {stack : List OpenElement}, (∀ e ∈ stack, e.Clean) →
        build d stack ts = some root → root.Proper :=
      fun hclean => proper_build hd hrest hclean
    unfold build at h
    split at h
    · rename_i h'
      cases h'
    · rename_i name attributes empty rest heq
      obtain ⟨rfl, rfl⟩ := List.cons.inj heq
      simp only [Option.bind_eq_bind, Option.bind_eq_some_iff] at h
      obtain ⟨values, hvalues, ⟨tag, bindings⟩, htag, h⟩ := h
      obtain ⟨hproper, hbindings⟩ := proper_resolveTag (proper_outer _ hstack) ht.1
        (clean_attributeValues hd ht.2 hvalues) htag
      split at h
      · exact proper_finished (.element hproper (by simp)) hstack hbuild h
      · have hopen : (OpenElement.mk name tag bindings []).Clean := ⟨hproper, hbindings, by simp⟩
        have hall := List.forall_mem_cons.2 ⟨hopen, hstack⟩
        exact hbuild hall h
    · rename_i e stack name rest heq
      obtain ⟨rfl, rfl⟩ := List.cons.inj heq
      obtain ⟨he, hstack⟩ := List.forall_mem_cons.1 hstack
      split at h
      · refine proper_finished (.element he.tag fun n hn => ?_) hstack hbuild h
        exact he.content n (List.mem_reverse.1 hn)
      · cases h
    · rename_i e stack token rest _ _ heq
      obtain ⟨rfl, rfl⟩ := List.cons.inj heq
      obtain ⟨he, hstack⟩ := List.forall_mem_cons.1 hstack
      have hadd : ∀ {node : Node}, (∀ n ∈ addNode node e.content, n.Proper) →
          ∀ e' ∈ { e with content := addNode node e.content } :: stack, e'.Clean := by
        intro node hnodes
        exact List.forall_mem_cons.2 ⟨⟨he.tag, he.bindings, hnodes⟩, hstack⟩
      refine hbuild (hadd ?_) h
      split
      · exact proper_addText (isText_partsText ht) he.content
      · refine proper_addText ?_ he.content
        rw [IsText, String.toList_ofList]
        exact ht
      · exact proper_addNode (.comment trivial) he.content
      · exact proper_addNode (.instruction trivial) he.content
      · exact proper_addText (by simp [IsText]) he.content
    · cases h

theorem proper_readAfterDeclaration {standalone : Bool} {cs : List Char} {root : Node}
    (h : readAfterDeclaration standalone cs = some root) : root.Proper := by
  unfold readAfterDeclaration at h
  simp only [Option.bind_eq_bind, Option.bind_eq_some_iff] at h
  obtain ⟨⟨d, rest⟩, hprolog, ts, hts, content, hcontent, h⟩ := h
  have hd : d.Clean := clean_prolog (fun e he => by cases he) hprolog
  exact proper_build hd (clean_expandTokens hcontent (clean_tokens hts)) (by simp) h

/-- What is read has proper names and holds only characters that documents may hold. -/
theorem proper_readText {text : String} {root : Node} (h : readText text = some root) :
    root.Proper := by
  unfold readText at h
  simp only [Option.bind_eq_bind, Option.bind_eq_some_iff] at h
  obtain ⟨⟨declared, rest⟩, -, h⟩ := h
  exact proper_readAfterDeclaration h

end Tree

/-- What is finished last is an element. -/
theorem exists_element_of_build {d : Doctype} :
    ∀ {ts : List Token} {stack : List OpenElement} {root : Node},
    build d stack ts = some root → ∃ tag content, root = .element tag content
  | [], stack, root, h => by
    rw [build] at h
    cases h
  | t :: ts, stack, root, h => by
    have hfinish : ∀ {tag : Tag} {content : List Node} {stack : List OpenElement},
        (match finish (.element tag content) stack with
          | .inl stack => build d stack ts
          | .inr root => if ts.all isTrailing then some root else none) = some root →
        ∃ tag content, root = .element tag content := by
      intro tag content stack h
      cases stack with
      | nil =>
        simp only [finish] at h
        split at h
        · exact ⟨tag, content, (Option.some.inj h).symm⟩
        · cases h
      | cons e rest => exact exists_element_of_build h
    unfold build at h
    split at h
    · rename_i heq
      cases heq
    · rename_i heq
      obtain ⟨rfl, rfl⟩ := List.cons.inj heq
      simp only [Option.bind_eq_bind, Option.bind_eq_some_iff] at h
      obtain ⟨values, -, ⟨tag, bindings⟩, -, h⟩ := h
      split at h
      · exact hfinish h
      · exact exists_element_of_build h
    · rename_i heq
      obtain ⟨rfl, rfl⟩ := List.cons.inj heq
      split at h
      · exact hfinish h
      · cases h
    · rename_i heq
      obtain ⟨rfl, rfl⟩ := List.cons.inj heq
      exact exists_element_of_build h
    · cases h

/-- A document is read as an element. -/
theorem exists_element_of_readText {text : String} {root : Node} (h : readText text = some root) :
    ∃ tag content, root = .element tag content := by
  unfold readText readAfterDeclaration at h
  simp only [Option.bind_eq_bind, Option.bind_eq_some_iff] at h
  obtain ⟨_, -, _, -, _, -, _, -, h⟩ := h
  exact exists_element_of_build h

/-- A proper tree holds only texts that documents may hold. -/
theorem Node.Proper.holds {n : Node} (h : n.Proper) : n.Holds IsText :=
  h.mono (fun _ htag a ha => (htag.attributes a ha).2.2) (fun _ hs => hs.2) id

/-- What is read holds only characters that documents may hold. -/
theorem holds_readText {text : String} {root : Node} (h : readText text = some root) :
    root.Holds IsText :=
  (proper_readText h).holds

/-! ## Without comments and instructions -/

section Marks

variable {T : Tag → Prop} {V : String → Prop} {M : Prop}

/-- Joining a text to a content keeps what holds of all texts. -/
theorem all_joinText {s : String} {content : List Node}
    (hjoin : ∀ s t, V s → V t → V (s ++ t)) (hs : V s) (h : ∀ n ∈ content, n.All T V M) :
    ∀ n ∈ joinText s content, n.All T V M := by
  unfold joinText
  split
  · rename_i t rest
    obtain ⟨ht, hrest⟩ := List.forall_mem_cons.1 h
    cases ht with
    | text ht => exact List.forall_mem_cons.2 ⟨.text (hjoin _ _ hs ht), hrest⟩
  · exact List.forall_mem_cons.2 ⟨.text hs, h⟩

mutual

/-- An element without comments and instructions has the same tags, and its texts are joined. -/
theorem all_withoutMarks (hjoin : ∀ s t, V s → V t → V (s ++ t)) :
    ∀ {tag : Tag} {content : List Node}, (Node.element tag content).All T V M →
      (Node.element tag content).withoutMarks.All T V False
  | tag, content, .element htag hinside => by
    rw [Node.withoutMarks]
    exact .element htag (all_withoutMarksList hjoin hinside)

/-- Leaving marks out keeps what holds of all texts, and no mark is left. -/
theorem all_withoutMarksList (hjoin : ∀ s t, V s → V t → V (s ++ t)) :
    ∀ {content : List Node}, (∀ n ∈ content, n.All T V M) →
      ∀ n ∈ withoutMarksList content, n.All T V False
  | [], _ => by simp [withoutMarksList]
  | n :: rest, h => by
    obtain ⟨hn, hrest⟩ := List.forall_mem_cons.1 h
    have ih := all_withoutMarksList hjoin hrest
    unfold withoutMarksList
    split
    · cases hn with
      | text hs => exact all_joinText hjoin hs ih
    · exact ih
    · exact ih
    · exact List.forall_mem_cons.2 ⟨all_withoutMarks hjoin hn, ih⟩

end

/-- Without its marks a tree holds the same kind of texts. -/
theorem Node.Holds.withoutMarks {n : Node} (h : n.Holds IsText) : n.withoutMarks.Holds IsText := by
  cases n with
  | element tag content =>
    have hjoin : ∀ s t : String, IsText s → IsText t → IsText (s ++ t) :=
      fun _ _ hs ht => hs.append ht
    exact (all_withoutMarks hjoin h).mono (fun _ => id) (fun _ => id) False.elim
  | text s => exact h
  | comment s => exact h
  | instruction s => exact h

end Marks

end Wadl.Xml
