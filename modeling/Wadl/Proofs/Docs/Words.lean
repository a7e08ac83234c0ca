import Wadl.Proofs.Docs.Pages
import Wadl.Proofs.Xml.Characters
import Wadl.Proofs.Xml.Marks

/-!
# Words of documentation

An element of documentation writes all of its text, in the order of the document (`ink_writeNode`).
Only text before the first item of a list and what stands in a line break is left out: `keptAll` is
the documentation without it, and is written in the same way (`writeAll_kept`). `Doc.words_kept`
says this of pieces of documentation.
-/

namespace Wadl

open Text

namespace DocText

/-! ## Elements -/

/-- Elements whose text is written as a whole. -/
def wholeLabels : List String := ["pre", "a"] ++ codeLabels

mutual

/-- What is written of a piece of documentation. -/
def keptNode : Xml.Node → Xml.Node
  | .element tag content =>
    if wholeLabels.contains tag.name.label then .element tag content
    else if tag.name.label = "ul" ∨
      tag.name.label = "ol" then .element tag (keptItems false content)
    else if tag.name.label = "br" then .element tag []
    else .element tag (keptAll content)
  | .text s => .text s
  | .comment s => .comment s
  | .instruction s => .instruction s

/-- What is written of pieces of documentation. -/
def keptAll : List Xml.Node → List Xml.Node
  | [] => []
  | n :: rest => keptNode n :: keptAll rest

/-- What is written of the items of a list and of what stands between them. `begun` says whether
there was an item. -/
def keptItems (begun : Bool) : List Xml.Node → List Xml.Node
  | [] => []
  | .element tag content :: rest => .element tag (keptAll content) :: keptItems true rest
  | .text s :: rest => if begun then .text s :: keptItems begun rest else keptItems begun rest
  | .comment _ :: rest => keptItems begun rest
  | .instruction _ :: rest => keptItems begun rest

end

/-- What is seen of all text in some pieces. -/
def inkAll (content : List Xml.Node) : List Char := ink (Xml.allTextList content).toList

@[simp] theorem inkAll_nil : inkAll [] = [] := rfl

theorem inkAll_cons (n : Xml.Node) (rest : List Xml.Node) :
    inkAll (n :: rest) = ink n.allText.toList ++ inkAll rest := by
  rw [inkAll, Xml.allTextList, String.toList_append, ink_append, inkAll]

/-! ## What elements show -/

section Element

variable {tag : Xml.Tag} {content : List Xml.Node} {p : Page}

/-- The label of a list says whether it is numbered. -/
theorem isOrdered_of_list (h : tag.name.label = "ul" ∨ tag.name.label = "ol") :
    ∃ ordered : Bool, tag.name.label = if ordered then "ol" else "ul" :=
  h.elim (fun h => ⟨false, h⟩) fun h => ⟨true, h⟩

/-- A list is a block of its own; the lemmas below say what the other elements that are written
differently do. -/
theorem writeNode_list {ordered : Bool} (h : tag.name.label = if ordered then "ol" else "ul")
    (skipCode : Bool) :
    writeNode skipCode p (.element tag content) =
      (writeItems skipCode ordered 0 p.flush content).flush := by
  cases ordered <;> simp [writeNode, h]

theorem writeNode_br (h : tag.name.label = "br") (skipCode : Bool) :
    writeNode skipCode p (.element tag content) = p.flush := by
  simp [writeNode, h]

theorem writeNode_link (h : tag.name.label = "a") (skipCode : Bool) :
    writeNode skipCode p (.element tag content) =
      p.writeLink (trimmed (Xml.allTextList content)) (tag.get? "href") := by
  simp [writeNode, h, blockLabels]

theorem writeNode_code (h : codeLabels.contains tag.name.label = true) :
    writeNode false p (.element tag content) = p.write ("`" ++ Xml.allTextList content ++ "`") := by
  have hlabel : tag.name.label ∈ codeLabels := List.contains_iff_mem.1 h
  simp only [codeLabels, List.mem_cons, List.not_mem_nil, or_false] at hlabel
  rcases hlabel with h | h | h | h <;> simp [writeNode, h, blockLabels, codeLabels]

/-- All other elements write what is in them, in a paragraph of its own or in the open one. -/
theorem writeNode_inside (hwhole : ¬wholeLabels.contains tag.name.label = true)
    (hlist : ¬(tag.name.label = "ul" ∨ tag.name.label = "ol")) (hbr : tag.name.label ≠ "br")
    (skipCode : Bool) : writeNode skipCode p (.element tag content) =
      if blockLabels.contains tag.name.label then (writeAll skipCode p.flush content).flush
      else writeAll skipCode p content := by
  rw [List.contains_iff_mem, wholeLabels, List.mem_append, not_or] at hwhole
  obtain ⟨hpair, hcode⟩ := hwhole
  rw [List.mem_cons, List.mem_singleton, not_or] at hpair
  rw [not_or] at hlist
  rw [writeNode]
  simp only [if_neg hpair.1, if_neg hpair.2, if_neg hlist.1, if_neg hlist.2, if_neg hbr,
    List.contains_iff_mem, if_neg hcode]

/-- Comments between items are passed over, as are instructions. -/
theorem writeItems_comment (skipCode ordered : Bool) (n : Nat) (s : String) :
    writeItems skipCode ordered n p (.comment s :: content) =
      writeItems skipCode ordered n p content := by
  simp [writeItems]

theorem writeItems_instruction (skipCode ordered : Bool) (n : Nat) (s : String) :
    writeItems skipCode ordered n p (.instruction s :: content) =
      writeItems skipCode ordered n p content := by
  simp [writeItems]

end Element

mutual

/-- An element shows at least what is kept of it, after what is on the page already. -/
theorem ink_writeNode : ∀ (n : Xml.Node) (p : Page),
    (p.ink ++ ink (keptNode n).allText.toList).Sublist (writeNode false p n).ink
  | .text s, p => by simp [keptNode, Xml.Node.allText, writeNode]
  | .comment s, p => by simp [keptNode, Xml.Node.allText, writeNode]
  | .instruction s, p => by simp [keptNode, Xml.Node.allText, writeNode]
  | .element tag content, p => by
    rw [keptNode]
    split
    · rename_i hwhole
      rw [List.contains_iff_mem, wholeLabels, List.mem_append, List.mem_cons,
        List.mem_singleton] at hwhole
      rw [Xml.Node.allText]
      rcases hwhole with (hpre | hlink) | hcode
      · simp [writeNode_pre hpre, Page.ink_writePre]
      · rw [writeNode_link hlink, ← ink_trimmed]
        exact p.ink_writeLink _ _
      · rw [writeNode_code (List.contains_iff_mem.2 hcode), Page.ink_write, String.toList_append,
          String.toList_append, ink_append, ink_append]
        exact (List.Sublist.refl _).append
          ((List.sublist_append_right _ _).trans (List.sublist_append_left _ _))
    · split
      · rename_i hlist
        obtain ⟨ordered, hlabel⟩ := isOrdered_of_list hlist
        have h := ink_writeItems content ordered 0 p.flush
        rw [writeNode_list hlabel, Page.ink_flush, Xml.Node.allText]
        rwa [Page.ink_flush] at h
      · split
        · rename_i hbr
          simp [writeNode_br hbr, Xml.Node.allText, Xml.allTextList]
        · rename_i hwhole hlist hbr
          rw [writeNode_inside hwhole hlist hbr, Xml.Node.allText]
          split
          · have h := ink_writeAll content p.flush
            rwa [Page.ink_flush] at h ⊢
          · exact ink_writeAll content p

/-- All ink of what is kept gets to the page, in order. -/
theorem ink_writeAll : ∀ (content : List Xml.Node) (p : Page),
    (p.ink ++ inkAll (keptAll content)).Sublist (writeAll false p content).ink
  | [], p => by simp [keptAll, writeAll]
  | n :: rest, p => by
    rw [keptAll, inkAll_cons, ← List.append_assoc, writeAll]
    exact ((ink_writeNode n p).append_right _).trans (ink_writeAll rest _)

/-- So does that of the items of a list. -/
theorem ink_writeItems : ∀ (content : List Xml.Node) (ordered : Bool) (n : Nat) (p : Page),
    (p.ink ++ inkAll (keptItems (n != 0) content)).Sublist
      (writeItems false ordered n p content).ink
  | [], ordered, n, p => by simp [keptItems, writeItems]
  | .element tag content :: rest, ordered, n, p => by
    rw [keptItems, inkAll_cons, Xml.Node.allText, ← List.append_assoc, writeItems]
    let mark := if ordered then toString (n + 1) ++ ". " else "* "
    have hitem := ink_writeAll content ((p.flush.setItem true).write mark)
    rw [Page.ink_write, Page.ink_setItem, Page.ink_flush, List.append_assoc] at hitem
    refine List.Sublist.trans (List.Sublist.append_right ?_ _)
      (ink_writeItems rest ordered (n + 1) _)
    rw [Page.ink_setItem, Page.ink_flush]
    exact ((List.Sublist.refl _).append (List.sublist_append_right _ _)).trans hitem
  | .text s :: rest, ordered, n, p => by
    have h := ink_writeItems rest ordered n (if n = 0 then p else p.write s)
    rw [keptItems, writeItems]
    by_cases hn : n = 0
    · simpa [hn] using h
    · simpa [hn, inkAll_cons, Xml.Node.allText, List.append_assoc] using h
  | .comment s :: rest, ordered, n, p => by
    rw [keptItems, writeItems_comment]
    exact ink_writeItems rest ordered n p
  | .instruction s :: rest, ordered, n, p => by
    rw [keptItems, writeItems_instruction]
    exact ink_writeItems rest ordered n p

end

/-! ## What is left out -/

mutual

/-- What is left out of a piece of documentation makes no difference. -/
theorem writeNode_kept (skipCode : Bool) : ∀ (n : Xml.Node) (p : Page),
    writeNode skipCode p (keptNode n) = writeNode skipCode p n
  | .text s, p => by rw [keptNode]
  | .comment s, p => by rw [keptNode]
  | .instruction s, p => by rw [keptNode]
  | .element tag content, p => by
    rw [keptNode]
    split
    · rfl
    · split
      · rename_i hlist
        obtain ⟨ordered, hlabel⟩ := isOrdered_of_list hlist
        have h := writeItems_kept skipCode content ordered 0 p.flush
        rw [writeNode_list hlabel, writeNode_list hlabel]
        exact congrArg Page.flush h
      · split
        · rename_i hbr
          rw [writeNode_br hbr, writeNode_br hbr]
        · rename_i hwhole hlist hbr
          rw [writeNode_inside hwhole hlist hbr, writeNode_inside hwhole hlist hbr,
            writeAll_kept, writeAll_kept]

/-- What is not kept leaves nothing on the page, so leaving it out first changes nothing. -/
theorem writeAll_kept (skipCode : Bool) : ∀ (content : List Xml.Node) (p : Page),
    writeAll skipCode p (keptAll content) = writeAll skipCode p content
  | [], p => by rw [keptAll]
  | n :: rest, p => by rw [keptAll, writeAll, writeAll, writeNode_kept, writeAll_kept]

/-- The same between the items of a list. -/
theorem writeItems_kept (skipCode : Bool) :
    ∀ (content : List Xml.Node) (ordered : Bool) (n : Nat) (p : Page),
    writeItems skipCode ordered n p (keptItems (n != 0) content) =
      writeItems skipCode ordered n p content
  | [], ordered, n, p => by rw [keptItems]
  | .element tag content :: rest, ordered, n, p => by
    have h := writeItems_kept skipCode rest ordered (n + 1)
    rw [keptItems, writeItems, writeItems, writeAll_kept]
    exact h _
  | .text s :: rest, ordered, n, p => by
    rw [keptItems]
    by_cases hn : n = 0
    · have h := writeItems_kept skipCode rest ordered n p
      simpa [hn, writeItems] using h
    · have h := writeItems_kept skipCode rest ordered n (p.write s)
      simpa [hn, writeItems] using h
  | .comment s :: rest, ordered, n, p => by rw [keptItems, writeItems_comment, writeItems_kept]
  | .instruction s :: rest, ordered, n, p => by
      rw [keptItems, writeItems_instruction, writeItems_kept]

end

mutual

/-- Whether something that is seen is left out of a piece of documentation. -/
def losesNode : Xml.Node → Bool
  | .element tag content =>
    if wholeLabels.contains tag.name.label then false
    else if tag.name.label = "ul" ∨ tag.name.label = "ol" then losesItem false content
    else if tag.name.label = "br" then !(inkAll content).isEmpty
    else losesAny content
  | .text _ => false
  | .comment _ => false
  | .instruction _ => false

/-- Whether something that is seen is left out of pieces of documentation. -/
def losesAny : List Xml.Node → Bool
  | [] => false
  | n :: rest => losesNode n || losesAny rest

/-- Whether something that is seen is left out of the items of a list and of what stands between
them: all text before the first item is. -/
def losesItem (begun : Bool) : List Xml.Node → Bool
  | [] => false
  | .element _ content :: rest => losesAny content || losesItem true rest
  | .text s :: rest => !begun && !(ink s.toList).isEmpty || losesItem begun rest
  | .comment _ :: rest => losesItem begun rest
  | .instruction _ :: rest => losesItem begun rest

end

/-- Part of a text is kept; `loses` says whether something is left out. -/
structure Keeps (kept all : List Char) (loses : Bool) : Prop where
  sublist : kept.Sublist all
  eq_iff : loses = false ↔ kept = all

namespace Keeps

theorem refl (cs : List Char) : Keeps cs cs false := ⟨List.Sublist.refl cs, by simp⟩

/-- Where nothing is kept, something is lost unless there was nothing. -/
theorem none (cs : List Char) : Keeps [] cs (!cs.isEmpty) :=
  ⟨List.nil_sublist cs, by cases cs <;> simp⟩

/-- Parts are kept one after the other; something is lost if it is in either. -/
theorem append {kept all kept' all' : List Char} {loses loses' : Bool} (h : Keeps kept all loses)
    (h' : Keeps kept' all' loses') : Keeps (kept ++ kept') (all ++ all') (loses || loses') := by
  refine ⟨h.sublist.append h'.sublist, ?_⟩
  rw [Bool.or_eq_false_iff, h.eq_iff, h'.eq_iff]
  refine ⟨fun ⟨heq, heq'⟩ => by rw [heq, heq'], fun heq => ?_⟩
  -- two parts that are no longer than the wholes have together their length only if each has
  have hlength := congrArg List.length heq
  rw [List.length_append, List.length_append] at hlength
  have hle := h.sublist.length_le
  have hle' := h'.sublist.length_le
  exact ⟨h.sublist.eq_of_length (by omega), h'.sublist.eq_of_length (by omega)⟩

end Keeps

mutual

/-- Of each node some ink is kept, and all of it just if none is lost. -/
theorem keeps_node :
    ∀ n : Xml.Node, Keeps (ink (keptNode n).allText.toList) (ink n.allText.toList) (losesNode n)
  | .text s => by
    rw [keptNode, losesNode]
    exact .refl _
  | .comment s => by
    rw [keptNode, losesNode]
    exact .refl _
  | .instruction s => by
    rw [keptNode, losesNode]
    exact .refl _
  | .element tag content => by
    rw [keptNode, losesNode]
    split
    · exact .refl _
    · split
      · exact keeps_items false content
      · split
        · exact .none _
        · exact keeps_all content

/-- The same for content in a row. -/
theorem keeps_all :
    ∀ content : List Xml.Node, Keeps (inkAll (keptAll content)) (inkAll content) (losesAny content)
  | [] => by
    rw [keptAll, losesAny]
    exact .refl _
  | n :: rest => by
    rw [keptAll, losesAny, inkAll_cons, inkAll_cons]
    exact (keeps_node n).append (keeps_all rest)

/-- The same between the items of a list, once the first item has begun or before it. -/
theorem keeps_items : ∀ (begun : Bool) (content : List Xml.Node),
    Keeps (inkAll (keptItems begun content)) (inkAll content) (losesItem begun content)
  | begun, [] => by
    rw [keptItems, losesItem]
    exact .refl _
  | begun, .element tag content :: rest => by
    rw [keptItems, losesItem, inkAll_cons, inkAll_cons]
    exact (keeps_all content).append (keeps_items true rest)
  | begun, .text s :: rest => by
    have h := keeps_items begun rest
    rw [keptItems, losesItem, inkAll_cons, Xml.Node.allText]
    cases begun with
    | true => simpa [inkAll_cons, Xml.Node.allText] using (Keeps.refl (ink s.toList)).append h
    | false => simpa using (Keeps.none (ink s.toList)).append h
  | begun, .comment s :: rest => by
    rw [keptItems, losesItem]
    simpa [inkAll_cons, Xml.Node.allText] using keeps_items begun rest
  | begun, .instruction s :: rest => by
    rw [keptItems, losesItem]
    simpa [inkAll_cons, Xml.Node.allText] using keeps_items begun rest

end

end DocText

/-! ## Pieces of documentation -/

open DocText

/-- The content of documentation is read as these pieces, without comments and instructions. -/
def Doc.Reads (d : Doc) (content : List Xml.Node) : Prop :=
  ∃ root tag, Xml.readText ("<doc>" ++ d.content ++ "</doc>") = some root ∧
    root.withoutMarks = .element tag content

/-- Well-formed documentation is read as pieces with the same text. -/
theorem Doc.exists_reads {d : Doc} {root : Xml.Node}
    (h : Xml.readText ("<doc>" ++ d.content ++ "</doc>") = some root) :
    ∃ content, d.Reads content ∧ inkAll content = ink root.allText.toList := by
  obtain ⟨tag, content, rfl⟩ := Xml.exists_element_of_readText h
  refine ⟨Xml.withoutMarksList content, ⟨_, tag, h, by rw [Xml.Node.withoutMarks]⟩, ?_⟩
  rw [inkAll, Xml.allTextList_withoutMarksList, Xml.Node.allText]

/-- A text under a title, if there is one. -/
def titled (title : Option String) (body : String) : String :=
  match title with
  | some title =>
    if title.isEmpty then body else if body.isEmpty then title else title ++ "\n\n" ++ body
  | none => body

/-- A title adds ink and takes none away. -/
theorem ink_titled (title : Option String) (body : String) :
    (ink body.toList).Sublist (ink (titled title body).toList) := by
  unfold titled
  split
  · split
    · exact List.Sublist.refl _
    · split
      · rename_i hempty
        rw [String.isEmpty_iff.1 hempty]
        exact List.nil_sublist _
      · rw [String.toList_append, ink_append]
        exact List.sublist_append_right _ _
  · exact List.Sublist.refl _

theorem Doc.Reads.plainText {d : Doc} {content : List Xml.Node} (h : d.Reads content)
    (skipCode : Bool) :
    (d.plainText skipCode).1 = titled d.title (writeAll skipCode {} content).text := by
  obtain ⟨root, tag, hread, hroot⟩ := h
  unfold Doc.plainText
  simp only [hread, hroot]
  rfl

/-- Documentation that is well-formed markup becomes a text in which all that is seen of what is
kept occurs in its order. This is all that is seen of its text unless some of it stands before the
first item of a list or in a line break; what stands there is left out, and makes no difference. -/
theorem Doc.words_kept {d : Doc} {root : Xml.Node}
    (h : Xml.readText ("<doc>" ++ d.content ++ "</doc>") = some root) :
    ∃ content, d.Reads content ∧ inkAll content = ink root.allText.toList ∧
      (inkAll (keptAll content)).Sublist (ink (d.plainText false).1.toList) ∧
      (losesAny content = false →
        (ink root.allText.toList).Sublist (ink (d.plainText false).1.toList)) ∧
      (losesAny content = true →
        (inkAll (keptAll content)).length < (ink root.allText.toList).length) ∧
      ∀ (d' : Doc) (content' : List Xml.Node),
        d'.Reads content' → keptAll content' = keptAll content →
        d'.title = d.title → ∀ skipCode, (d'.plainText skipCode).1 = (d.plainText skipCode).1 := by
  obtain ⟨content, hreads, hall⟩ := exists_reads h
  have hkept : (inkAll (keptAll content)).Sublist (ink (d.plainText false).1.toList) := by
    refine List.Sublist.trans ?_ (hreads.plainText false ▸ ink_titled _ _)
    rw [Page.ink_text]
    exact ink_writeAll content {}
  obtain ⟨hsublist, hloses⟩ := keeps_all content
  refine ⟨content, hreads, hall, hkept, fun hno => ?_, fun hyes => ?_,
    fun d' content' hreads' hsame htitle skipCode => ?_⟩
  · rwa [hloses.1 hno, hall] at hkept
  · rw [hall] at hsublist hloses
    refine Nat.lt_of_le_of_ne hsublist.length_le fun hlength => ?_
    rw [hloses.2 (hsublist.eq_of_length hlength)] at hyes
    cases hyes
  · rw [hreads'.plainText, hreads.plainText, htitle, ← writeAll_kept, hsame, writeAll_kept]

/-- Documentation with text before the first item of a list. -/
def leadingText : Doc :=
  ⟨none, none, "<p>See <a href='http://x/'>it</a>.</p><ul>Intro<li>one</li></ul>", none⟩

theorem Doc.words_kept_leadingText :
    ∃ root, Xml.readText ("<doc>" ++ leadingText.content ++ "</doc>") = some root ∧
      root.allText = "See it.Introone" ∧ (leadingText.plainText false).1 =
        "See it (http://x/).\n\n* one" ∧
      ∃ content, leadingText.Reads content ∧ losesAny content = true ∧
        (inkAll (keptAll content)).Sublist (ink (leadingText.plainText false).1.toList) := by
  have hroot : (Xml.readText ("<doc>" ++ leadingText.content ++ "</doc>")).map (·.allText) =
      some "See it.Introone" := by decide +kernel
  have hplain : (leadingText.plainText false).1 = "See it (http://x/).\n\n* one" := by
    decide +kernel
  obtain ⟨root, hread, htext⟩ := Option.map_eq_some_iff.1 hroot
  obtain ⟨content, hreads, -, hkept, hall, -⟩ := Doc.words_kept hread
  refine ⟨root, hread, htext, hplain, content, hreads, ?_, hkept⟩
  -- the text before the item is not in the result
  rw [← Bool.not_eq_false]
  intro hno
  have hsublist := hall hno
  rw [htext, hplain] at hsublist
  exact absurd hsublist (by decide)

end Wadl
