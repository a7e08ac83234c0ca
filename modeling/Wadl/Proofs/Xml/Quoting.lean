import Mathlib.Data.Bool.AllAny
import Mathlib.Data.List.Forall2
import Wadl.Proofs.Xml.Characters
import Wadl.Xml.Writer

/-!
# Escaped text read back

Text and attribute values are written with some characters escaped. Whatever follows them, they are
read back character by character (`parts_escapeText`, `attributeValue_quoted`): each character that
is written becomes one part that stands for it.
-/

namespace Wadl.Xml

/-! ## Parts that stand for characters -/

/-- A part that stands for a character. -/
def Part.Is (p : Part) (c : Char) : Prop := p = .plain c ∨ p = .referred c

/-- Parts that stand for characters put together are the text. -/
theorem partsText_of_is {ps : List Part} {cs : List Char} (h : List.Forall₂ Part.Is ps cs) :
    partsText ps = String.ofList cs := by
  unfold partsText
  congr 1
  induction h with
  | nil => rfl
  | cons h _ ih =>
    rw [List.map_cons, ih]
    rcases h with rfl | rfl <;> rfl

theorem not_isEntity_of_is {ps : List Part} {cs : List Char} (h : List.Forall₂ Part.Is ps cs) :
    ps.any Part.isEntity = false := by
  induction h with
  | nil => rfl
  | cons h _ ih =>
    rw [List.any_cons, ih]
    rcases h with rfl | rfl <;> rfl

/-- Their value is that text, with no entity to be resolved. -/
theorem valueText_of_is {ps : List Part} {cs : List Char} (h : List.Forall₂ Part.Is ps cs)
    (lenient : Bool) (fuel : Nat) (entities : List (List Char × Entity)) :
    Doctype.valueText lenient (fuel + 1) entities ps = some cs := by
  have hall : ∀ {f : Part → Option (List Char)}, (∀ c, f (.plain c) = some [c]) →
      (∀ c, f (.referred c) = some [c]) → (ps.mapM f).map List.flatten = some cs := by
    intro f hplain hreferred
    induction h with
    | nil => rfl
    | @cons p c ps cs h _ ih =>
      have hp : f p = some [c] := by
        rcases h with rfl | rfl
        · exact hplain c
        · exact hreferred c
      obtain ⟨found, hfound, rfl⟩ := Option.map_eq_some_iff.1 ih
      rw [List.mapM_cons, hp]
      simp only [Option.bind_eq_bind, Option.bind_some, hfound]
      rfl
  unfold Doctype.valueText
  exact hall (fun c => rfl) (fun c => rfl)

/-! ## References -/

/-- A reference is read as the part that it names. -/
theorem partsFrom_reference {name : List Char} {p : Part} (hname : ';' ∉ name)
    (h : reference name = some p) (rest : List Char) :
    partsFrom none ('&' :: (name ++ ';' :: rest)) = (partsFrom none rest).map (p :: ·) := by
  have hacc : ∀ {name acc : List Char}, ';' ∉ name → reference (acc.reverse ++ name) = some p →
      partsFrom (some acc) (name ++ ';' :: rest) = (partsFrom none rest).map (p :: ·) := by
    intro name
    induction name with
    | nil =>
      intro acc _ h
      rw [List.append_nil] at h
      rw [List.nil_append, partsFrom, if_pos rfl, h]
      cases partsFrom none rest <;> rfl
    | cons c cs ih =>
      intro acc hname h
      have hc : c ≠ ';' := by
        rintro rfl
        exact hname List.mem_cons_self
      rw [List.cons_append, partsFrom, if_neg hc]
      refine ih (fun hmem => hname (List.mem_cons_of_mem c hmem)) ?_
      rwa [List.reverse_cons, List.append_assoc, List.singleton_append]
  rw [partsFrom, if_pos rfl]
  exact hacc hname h

/-- A character that needs no escape is a part of its own. -/
theorem partsFrom_plain {c : Char} (hc : isChar c = true) (hamp : c ≠ '&') (rest : List Char) :
    partsFrom none (c :: rest) = (partsFrom none rest).map (.plain c :: ·) := by
  rw [partsFrom, if_neg hamp, if_pos hc]

/-- A text without references is read as its characters. -/
theorem is_of_partsFrom :
    ∀ {cs : List Char} {ps : List Part}, '&' ∉ cs → partsFrom none cs = some ps →
    List.Forall₂ Part.Is ps cs
  | [], ps, _, h => by
    rw [partsFrom] at h
    obtain rfl := Option.some.inj h
    exact .nil
  | c :: cs, ps, hcs, h => by
    rw [List.mem_cons, not_or] at hcs
    rw [partsFrom, if_neg (Ne.symm hcs.1)] at h
    split at h
    · obtain ⟨qs, hqs, rfl⟩ := Option.map_eq_some_iff.1 h
      exact .cons (Or.inl rfl) (is_of_partsFrom hcs.2 hqs)
    · cases h

/-- If what is written for each character is read as one part, a written text is read as its
parts. -/
theorem parts_flatMap {f : Char → List Char} {R : Part → Char → Prop}
    (h : ∀ c, isChar c = true →
      ∃ p, R p c ∧ ∀ rest, partsFrom none (f c ++ rest) = (partsFrom none rest).map (p :: ·)) :
    ∀ {cs : List Char}, (∀ c ∈ cs, isChar c = true) →
      ∃ ps, parts (cs.flatMap f) = some ps ∧ List.Forall₂ R ps cs
  | [], _ => ⟨[], rfl, .nil⟩
  | c :: cs, hcs => by
    obtain ⟨hc, hcs⟩ := List.forall_mem_cons.1 hcs
    obtain ⟨p, hp, hread⟩ := h c hc
    obtain ⟨ps, hps, hall⟩ := parts_flatMap h hcs
    refine ⟨p :: ps, ?_, .cons hp hall⟩
    unfold parts at hps ⊢
    rw [List.flatMap_cons, hread, hps]
    rfl

/-! ## Text -/

/-- What is written for a character of a text. -/
def textChar (c : Char) : List Char :=
  (if c = '&' then "&amp;" else if c = '<' then "&lt;" else if c = '>' then "&gt;"
    else String.singleton c).toList

theorem toList_escapeText (s : String) : (escapeText s).toList = s.toList.flatMap textChar := by
  rw [escapeText, replaceChars, String.toList_ofList]
  rfl

theorem escapeText_empty : escapeText "" = "" := by
  rw [← String.toList_inj, toList_escapeText]
  rfl

theorem escapeText_append (s t : String) : escapeText (s ++ t) = escapeText s ++ escapeText t := by
  rw [← String.toList_inj, String.toList_append, toList_escapeText,
    toList_escapeText, toList_escapeText, String.toList_append, List.flatMap_append]

/-- An escaped character is read as one part, whatever follows. -/
theorem partsFrom_textChar {c : Char} (hc : isChar c = true) :
    ∃ p, Part.Is p c ∧ ∀ rest,
      partsFrom none (textChar c ++ rest) = (partsFrom none rest).map (p :: ·) := by
  unfold textChar
  by_cases hamp : c = '&'
  · subst hamp
    exact ⟨_, Or.inr rfl, partsFrom_reference (by decide : ';' ∉ "amp".toList) (by decide)⟩
  by_cases hlt : c = '<'
  · subst hlt
    exact ⟨_, Or.inr rfl, partsFrom_reference (by decide : ';' ∉ "lt".toList) (by decide)⟩
  by_cases hgt : c = '>'
  · subst hgt
    exact ⟨_, Or.inr rfl, partsFrom_reference (by decide : ';' ∉ "gt".toList) (by decide)⟩
  rw [if_neg hamp, if_neg hlt, if_neg hgt, String.toList_singleton]
  exact ⟨_, Or.inl rfl, partsFrom_plain hc hamp⟩

/-- A character is written as itself or as a reference. -/
theorem textChar_cases (c : Char) :
    (textChar c = [c] ∧ c ≠ '<' ∧ c ≠ '>') ∨
      (textChar c ∈ ["&amp;".toList, "&lt;".toList, "&gt;".toList] ∧ isChar c = true) := by
  unfold textChar
  by_cases hamp : c = '&'
  · subst hamp
    exact Or.inr (by decide)
  by_cases hlt : c = '<'
  · subst hlt
    exact Or.inr (by decide)
  by_cases hgt : c = '>'
  · subst hgt
    exact Or.inr (by decide)
  rw [if_neg hamp, if_neg hlt, if_neg hgt, String.toList_singleton]
  exact Or.inl ⟨rfl, hlt, hgt⟩

theorem escapeText_eq_empty {s : String} : escapeText s = "" ↔ s = "" := by
  constructor
  · intro h
    rw [← String.toList_inj, toList_escapeText, String.toList_empty, List.flatMap_eq_nil_iff] at h
    rw [← String.toList_inj, String.toList_empty, List.eq_nil_iff_forall_not_mem]
    intro c hc
    rcases textChar_cases c with ⟨hself, -⟩ | ⟨hescape, -⟩
    · rw [h c hc] at hself
      cases hself
    · rw [h c hc] at hescape
      exact absurd hescape (by decide)
  · rintro rfl
    exact escapeText_empty

/-- The characters of references. -/
theorem mem_escape {e : List Char} (h : e ∈ ["&amp;".toList, "&lt;".toList, "&gt;".toList])
    {c : Char} (hc : c ∈ e) : c ≠ '<' ∧ c ≠ '>' ∧ c ≠ '\r' ∧ isChar c = true := by
  have hall : ∀ c ∈ ["&amp;".toList, "&lt;".toList, "&gt;".toList].flatten,
      c ≠ '<' ∧ c ≠ '>' ∧ c ≠ '\r' ∧ isChar c = true := List.all_iff_forall_prop.1 (by decide)
  exact hall c (List.mem_flatten_of_mem h hc)

/-- Escaping brings in no carriage return. -/
theorem return_notMem_escapeText {s : String} (h : '\r' ∉ s.toList) :
    '\r' ∉ (escapeText s).toList := by
  rw [toList_escapeText]
  intro hmem
  obtain ⟨d, hd, hc⟩ := List.mem_flatMap.1 hmem
  rcases textChar_cases d with ⟨hself, -⟩ | ⟨hescape, -⟩
  · rw [hself, List.mem_singleton] at hc
    exact h (hc ▸ hd)
  · exact (mem_escape hescape hc).2.2.1 rfl

/-- Escaped text holds no markup. -/
theorem mem_escapeText {s : String} {c : Char} (h : c ∈ (escapeText s).toList) :
    c ≠ '<' ∧ c ≠ '>' := by
  rw [toList_escapeText] at h
  obtain ⟨d, -, hc⟩ := List.mem_flatMap.1 h
  rcases textChar_cases d with ⟨hself, hmarks⟩ | ⟨hescape, -⟩
  · rw [hself, List.mem_singleton] at hc
    rwa [hc]
  · have hmarks := mem_escape hescape hc
    exact ⟨hmarks.1, hmarks.2.1⟩

/-- Escaped text is one that documents may hold just if the text is. -/
theorem isText_escapeText {s : String} : IsText (escapeText s) ↔ IsText s := by
  unfold IsText
  rw [toList_escapeText]
  constructor
  · intro h c hc
    rcases textChar_cases c with ⟨hself, -⟩ | ⟨-, hchar⟩
    · exact h c (List.mem_flatMap.2 ⟨c, hc, by rw [hself]; exact List.mem_singleton_self c⟩)
    · exact hchar
  · intro h c hc
    obtain ⟨d, hd, hmem⟩ := List.mem_flatMap.1 hc
    rcases textChar_cases d with ⟨hself, -⟩ | ⟨hescape, -⟩
    · rw [hself, List.mem_singleton] at hmem
      exact hmem ▸ h d hd
    · exact (mem_escape hescape hmem).2.2.2

/-- Escaped text is read back as parts that stand for its characters. -/
theorem parts_escapeText {s : String} (h : IsText s) :
    ∃ ps, parts (escapeText s).toList = some ps ∧ List.Forall₂ Part.Is ps s.toList := by
  rw [toList_escapeText]
  exact parts_flatMap (fun c hc => partsFrom_textChar hc) h

/-! ## Attribute values -/

/-- What stands for a character between quotes: a reference to it, or the character itself if that
is read as it stands. -/
def Escapes (quote : Char) (cs : List Char) (c : Char) : Prop :=
  (∃ name, cs = '&' :: (name ++ [';']) ∧ ';' ∉ name ∧ (∀ d ∈ ['<', '"', '\'', '\r'], d ∉ name) ∧
    reference name = some (.referred c)) ∨
  (cs = [c] ∧ c ≠ '&' ∧ c ≠ '<' ∧ c ≠ '\n' ∧ c ≠ '\r' ∧ c ≠ '\t' ∧ (quote = '"' → c ≠ '"'))

/-- Escaping for a quote never lets that quote through. -/
theorem escapes_quoteChar (quote c : Char) : Escapes quote (quoteChar quote c).toList c := by
  unfold quoteChar
  by_cases hamp : c = '&'
  · rw [if_pos hamp, hamp]
    exact Or.inl ⟨"amp".toList, rfl, by decide, List.all_iff_forall_prop.1 (by decide), rfl⟩
  by_cases hlt : c = '<'
  · rw [if_neg hamp, if_pos hlt, hlt]
    exact Or.inl ⟨"lt".toList, rfl, by decide, List.all_iff_forall_prop.1 (by decide), rfl⟩
  by_cases hgt : c = '>'
  · rw [if_neg hamp, if_neg hlt, if_pos hgt, hgt]
    exact Or.inl ⟨"gt".toList, rfl, by decide, List.all_iff_forall_prop.1 (by decide), rfl⟩
  by_cases hnewline : c = '\n'
  · rw [if_neg hamp, if_neg hlt, if_neg hgt, if_pos hnewline, hnewline]
    exact Or.inl ⟨"#10".toList, rfl, by decide, List.all_iff_forall_prop.1 (by decide), rfl⟩
  by_cases hreturn : c = '\r'
  · rw [if_neg hamp, if_neg hlt, if_neg hgt, if_neg hnewline, if_pos hreturn, hreturn]
    exact Or.inl ⟨"#13".toList, rfl, by decide, List.all_iff_forall_prop.1 (by decide), rfl⟩
  by_cases htab : c = '\t'
  · rw [if_neg hamp, if_neg hlt, if_neg hgt, if_neg hnewline, if_neg hreturn, if_pos htab, htab]
    exact Or.inl ⟨"#9".toList, rfl, by decide, List.all_iff_forall_prop.1 (by decide), rfl⟩
  rw [if_neg hamp, if_neg hlt, if_neg hgt, if_neg hnewline, if_neg hreturn, if_neg htab]
  by_cases hquote : c = '"' ∧ quote = '"'
  · rw [if_pos hquote, hquote.1]
    exact Or.inl ⟨"quot".toList, rfl, by decide, List.all_iff_forall_prop.1 (by decide), rfl⟩
  · rw [if_neg hquote, String.toList_singleton]
    exact Or.inr ⟨rfl, hamp, hlt, hnewline, hreturn, htab, fun hq hc => hquote ⟨hc, hq⟩⟩

/-- What is written for a character of an attribute value between double quotes. -/
def attributeChar (c : Char) : List Char :=
  (if c = '&' then "&amp;" else if c = '<' then "&lt;" else if c = '>' then "&gt;"
    else if c = '"' then "&quot;" else if c = '\r' then "&#13;" else if c = '\n' then "&#10;"
    else if c = '\t' then "&#09;" else String.singleton c).toList

theorem toList_escapeAttribute (s : String) :
    (escapeAttribute s).toList = s.toList.flatMap attributeChar := by
  rw [escapeAttribute, replaceChars, String.toList_ofList]
  rfl

/-- Between double quotes, a tabulator is the only character that is written in two ways. -/
theorem attributeChar_eq {c : Char} (h : c ≠ '\t') :
    attributeChar c = (quoteChar '"' c).toList := by
  unfold attributeChar quoteChar
  by_cases hamp : c = '&'
  · rw [if_pos hamp, if_pos hamp]
  by_cases hlt : c = '<'
  · rw [if_neg hamp, if_neg hamp, if_pos hlt, if_pos hlt]
  by_cases hgt : c = '>'
  · rw [if_neg hamp, if_neg hamp, if_neg hlt, if_neg hlt, if_pos hgt, if_pos hgt]
  rw [if_neg hamp, if_neg hamp, if_neg hlt, if_neg hlt, if_neg hgt, if_neg hgt, if_neg h]
  by_cases hquote : c = '"'
  · subst hquote
    rfl
  by_cases hreturn : c = '\r'
  · subst hreturn
    rfl
  by_cases hnewline : c = '\n'
  · subst hnewline
    rfl
  simp [h, hquote, hreturn, hnewline]

theorem escapes_attributeChar (c : Char) : Escapes '"' (attributeChar c) c := by
  by_cases htab : c = '\t'
  · subst htab
    exact Or.inl ⟨"#09".toList, rfl, by decide, List.all_iff_forall_prop.1 (by decide), rfl⟩
  · rw [attributeChar_eq htab]
    exact escapes_quoteChar '"' c

section Body

variable {quote : Char} {write : Char → List Char} {s : List Char}

/-- What is written between quotes holds neither the quotes nor the beginning of a tag nor carriage
returns. -/
theorem mem_body (hwrite : ∀ c, Escapes quote (write c) c)
    (hquote : quote = '"' ∨ quote = '\'' ∧ '\'' ∉ s) {c : Char} (h : c ∈ s.flatMap write) :
    c ≠ quote ∧ c ≠ '<' ∧ c ≠ '\r' := by
  obtain ⟨d, hd, hc⟩ := List.mem_flatMap.1 h
  rcases hwrite d with ⟨name, heq, -, hnone, -⟩ | ⟨heq, -, hlt, -, hreturn, -, hdouble⟩
  · have hmark : ∀ {e : Char}, e ∈ ['<', '"', '\'', '\r'] → c ≠ e := by
      rintro e he rfl
      rw [heq] at hc
      have hcases : c = '&' ∨ c = ';' ∨ c ∈ name := by
        simpa [or_left_comm, or_comm, or_assoc] using hc
      rcases hcases with rfl | rfl | hmem
      · exact absurd he (by decide)
      · exact absurd he (by decide)
      · exact hnone c he hmem
    refine ⟨?_, hmark (by decide), hmark (by decide)⟩
    rcases hquote with rfl | ⟨rfl, -⟩ <;> exact hmark (by decide)
  · rw [heq, List.mem_singleton] at hc
    subst hc
    refine ⟨?_, hlt, hreturn⟩
    rcases hquote with rfl | ⟨rfl, hsingle⟩
    · exact hdouble rfl
    · rintro rfl
      exact hsingle hd

/-- The value of an attribute is read back. -/
theorem attributeValue_body (hwrite : ∀ c, Escapes quote (write c) c) (hlt : '<' ∉ s.flatMap write)
    (h : ∀ c ∈ s, isChar c = true) :
    ∃ ps, attributeValue (s.flatMap write) = some ps ∧ List.Forall₂ Part.Is ps s := by
  have hchar : ∀ c, isChar c = true →
      ∃ p, (p = .referred c ∨ (p = .plain c ∧ c ≠ '\n' ∧ c ≠ '\r' ∧ c ≠ '\t')) ∧
        ∀ rest, partsFrom none (write c ++ rest) = (partsFrom none rest).map (p :: ·) := by
    intro c hc
    rcases hwrite c with ⟨name, heq, hname, -, href⟩ | ⟨heq, hamp, -, hnewline, hreturn, htab, -⟩
    · refine ⟨.referred c, Or.inl rfl, fun rest => ?_⟩
      rw [heq, List.cons_append, List.append_assoc, List.singleton_append]
      exact partsFrom_reference hname href rest
    · refine ⟨.plain c, Or.inr ⟨rfl, hnewline, hreturn, htab⟩, fun rest => ?_⟩
      rw [heq, List.singleton_append]
      exact partsFrom_plain hc hamp rest
  obtain ⟨ps, hps, hall⟩ := parts_flatMap hchar h
  unfold attributeValue
  rw [if_neg (by simpa using hlt), hps]
  refine ⟨_, rfl, ?_⟩
  rw [List.forall₂_map_left_iff]
  refine hall.imp fun p c hp => ?_
  rcases hp with rfl | ⟨rfl, hnewline, hreturn, htab⟩
  · exact Or.inr rfl
  · left
    show Part.plain (if isSpace c then ' ' else c) = .plain c
    by_cases hspace : c = ' '
    · subst hspace
      rfl
    · rw [if_neg (by simp [isSpace, hspace, hnewline, hreturn, htab])]

end Body

/-- What is written between the quotes of an attribute value. -/
def quotedBody (s : String) : List Char :=
  s.toList.flatMap fun c => (quoteChar (attributeQuote s) c).toList

theorem toList_quoteAttribute (s : String) :
    (quoteAttribute s).toList = attributeQuote s :: (quotedBody s ++ [attributeQuote s]) := by
  unfold quoteAttribute replaceChars
  simp only [String.toList_append, String.toList_singleton, String.toList_ofList]
  rfl

/-- Single quotes are taken only for values without them. -/
theorem attributeQuote_eq (s : String) :
    attributeQuote s = '"' ∨ attributeQuote s = '\'' ∧ '\'' ∉ s.toList := by
  unfold attributeQuote
  split
  · rename_i hchosen
    exact Or.inr ⟨rfl, by simp_all⟩
  · exact Or.inl rfl

/-- Between its quotes, a value holds neither its quote nor an opening bracket. -/
theorem mem_quotedBody {s : String} {c : Char} (h : c ∈ quotedBody s) :
    c ≠ attributeQuote s ∧ c ≠ '<' ∧ c ≠ '\r' :=
  mem_body (escapes_quoteChar _) (attributeQuote_eq s) h

/-- A quoted value is read back. -/
theorem attributeValue_quoted {s : String} (h : IsText s) :
    ∃ ps, attributeValue (quotedBody s) = some ps ∧ List.Forall₂ Part.Is ps s.toList :=
  attributeValue_body (escapes_quoteChar _) (fun hmem => (mem_quotedBody hmem).2.1 rfl) h

theorem mem_escapeAttribute {s : String} {c : Char} (h : c ∈ (escapeAttribute s).toList) :
    c ≠ '"' ∧ c ≠ '<' ∧ c ≠ '\r' := by
  rw [toList_escapeAttribute] at h
  exact mem_body escapes_attributeChar (Or.inl rfl) h

/-- So is a value between double quotes. -/
theorem attributeValue_escapeAttribute {s : String} (h : IsText s) :
    ∃ ps, attributeValue (escapeAttribute s).toList = some ps ∧
      List.Forall₂ Part.Is ps s.toList := by
  have hlt : '<' ∉ s.toList.flatMap attributeChar :=
    fun hmem => (mem_body escapes_attributeChar (Or.inl rfl) hmem).2.1 rfl
  rw [toList_escapeAttribute]
  exact attributeValue_body escapes_attributeChar hlt h

end Wadl.Xml
