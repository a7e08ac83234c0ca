import Wadl.Proofs.Runs
import Wadl.Proofs.Tables
import Wadl.Proofs.Uri.Forms
import Wadl.Wire.Url

/-!
# Templates

A template is read once, from left to right, as characters and placeholders (`partsFrom`). Filling
it writes each placeholder by itself (`toList_fillWith`). What is filled in holds no opening brace,
so that reading the filled template finds the placeholders that were left and no others
(`templateParts_fillWith`); a second filling therefore does what one filling with the values of both
would have done (`fillWith_fillWith`).
-/

namespace Wadl

/-! ## Parts of a template -/

/-- A part of a template. -/
inductive TemplatePart where
  | char (c : Char)
  | placeholder (name : String)
  deriving Repr, DecidableEq

namespace TemplatePart

/-- A part as it stands in the template. -/
def text : TemplatePart → List Char
  | char c => [c]
  | placeholder name => '\x7b' :: name.toList ++ ['\x7d']

/-- The name of a placeholder. -/
def name? : TemplatePart → Option String
  | char _ => none
  | placeholder name => some name

/-- A part as it stands in the filled template. -/
def filledBy (text? : String → Option String) : TemplatePart → List Char
  | char c => [c]
  | placeholder name => ((text? name).map String.toList).getD (placeholder name).text

/-- The parts that a part of the template becomes when the template is filled. -/
def settledBy (text? : String → Option String) : TemplatePart → List TemplatePart
  | char c => [char c]
  | placeholder name => ((text? name).map (·.toList.map char)).getD [placeholder name]

variable (cs : List Char) (text? : String → Option String)

theorem flatMap_text_chars : (cs.map char).flatMap text = cs := by
  rw [List.flatMap_map]
  exact List.flatMap_singleton' cs

theorem filterMap_name_chars : (cs.map char).filterMap name? = [] := by
  rw [List.filterMap_map]
  exact List.filterMap_eq_nil_iff.2 fun _ _ => rfl

theorem flatMap_filledBy_chars : (cs.map char).flatMap (filledBy text?) = cs := by
  rw [List.flatMap_map]
  exact List.flatMap_singleton' cs

theorem flatMap_settledBy_chars : (cs.map char).flatMap (settledBy text?) = cs.map char := by
  rw [List.flatMap_map]
  exact (List.map_eq_flatMap).symm

end TemplatePart

open TemplatePart

/-- The parts of a template. `acc` holds the name being read, if any, last character first. -/
def partsFrom : (acc : Option (List Char)) → List Char → List TemplatePart
  | none, [] => []
  | some acc, [] => ('\x7b' :: acc.reverse).map char
  | none, c :: cs => if c = '\x7b' then partsFrom (some []) cs else char c :: partsFrom none cs
  | some acc, c :: cs =>
    if c = '\x7d' then
      (if acc.isEmpty then ['\x7b', '\x7d'].map char
        else [placeholder (String.ofList acc.reverse)]) ++ partsFrom none cs
    else partsFrom (some (c :: acc)) cs

/-- The parts of a template. -/
def templateParts (template : String) : List TemplatePart := partsFrom none template.toList

section Parts

variable {acc : Option (List Char)} {cs : List Char} {text? : String → Option String}

/-- The characters that were read before the present ones and do not stand in a part yet. -/
def pendingText : (acc : Option (List Char)) → List Char
  | none => []
  | some acc => '\x7b' :: acc.reverse

/-- The parts of a template put together are its text, with what is still open in front. -/
theorem flatMap_text_partsFrom (acc : Option (List Char)) (cs : List Char) :
    (partsFrom acc cs).flatMap text = pendingText acc ++ cs := by
  fun_induction partsFrom acc cs with
  | case1 => rfl
  | case2 acc =>
    rw [flatMap_text_chars, List.append_nil]
    rfl
  | case3 cs ih => simpa [pendingText] using ih
  | case4 c cs _ ih => simpa [pendingText, text] using ih
  | case5 acc cs ih =>
    rw [List.flatMap_append, ih]
    cases acc with
    | nil => simp [pendingText, text]
    | cons a acc => simp [pendingText, text]
  | case6 acc c cs _ ih => simpa [pendingText] using ih

example : (templateParts "items/\x7bid\x7d").flatMap text = "items/\x7bid\x7d".toList := by
  decide +kernel

/-- The placeholders found on the way are those among the parts. -/
theorem placeholdersFrom_eq (acc : Option (List Char)) (cs : List Char) :
    placeholdersFrom acc cs = (partsFrom acc cs).filterMap name? := by
  fun_induction partsFrom acc cs with
  | case1 => rfl
  | case2 acc =>
    rw [filterMap_name_chars]
    rfl
  | case3 cs ih => simpa [placeholdersFrom] using ih
  | case4 c cs hc ih =>
    rw [List.filterMap_cons_none rfl, ← ih, placeholdersFrom, if_neg hc]
  | case5 acc cs ih =>
    rw [List.filterMap_append, ← ih, placeholdersFrom, if_pos rfl]
    cases acc with
    | nil => rfl
    | cons a acc => rfl
  | case6 acc c cs hc ih => simpa [placeholdersFrom, hc] using ih

/-- Filling on the way is filling part by part. -/
theorem fillFrom_eq (acc : Option (List Char)) (cs : List Char) :
    fillFrom text? acc cs = (partsFrom acc cs).flatMap (filledBy text?) := by
  fun_induction partsFrom acc cs with
  | case1 => rfl
  | case2 acc =>
    rw [flatMap_filledBy_chars]
    rfl
  | case3 cs ih => simpa [fillFrom] using ih
  | case4 c cs hc ih => simpa [fillFrom, hc, filledBy] using ih
  | case5 acc cs ih =>
    rw [List.flatMap_append, ← ih, fillFrom, if_pos rfl]
    cases acc with
    | nil => rfl
    | cons a acc =>
      cases h : text? (String.ofList (a :: acc).reverse) <;> simp_all [filledBy, text]
  | case6 acc c cs hc ih => simpa [fillFrom, hc] using ih

/-- The names of placeholders are not empty and hold no closing brace. -/
theorem name_of_mem_partsFrom {name : String} (hacc : '\x7d' ∉ pendingText acc)
    (h : placeholder name ∈ partsFrom acc cs) : name ≠ "" ∧ '\x7d' ∉ name.toList := by
  fun_induction partsFrom acc cs with
  | case1 => cases h
  | case2 acc => simp at h
  | case3 cs ih => exact ih (by decide) h
  | case4 c cs _ ih => exact ih (by decide) (by simpa using h)
  | case5 acc cs ih =>
    rcases List.mem_append.1 h with h | h
    · cases acc with
      | nil => simp at h
      | cons a acc =>
        have hname : name = String.ofList (a :: acc).reverse := by simpa using h
        rw [hname]
        refine ⟨by simp, ?_⟩
        simpa [pendingText] using hacc
    · exact ih (by decide) h
  | case6 acc c cs hc ih =>
    refine ih ?_ h
    have hne : '\x7d' ≠ c := Ne.symm hc
    simpa [pendingText, hne] using hacc

/-! ## Reading again -/

/-- Text without an opening brace is read as it stands. -/
theorem partsFrom_plain (cs : List Char) : ∀ {w : List Char}, '\x7b' ∉ w →
    partsFrom none (w ++ cs) = w.map char ++ partsFrom none cs
  | [], _ => rfl
  | c :: w, h => by
    obtain ⟨hc, hw⟩ := List.ne_and_not_mem_of_not_mem_cons h
    rw [List.cons_append, partsFrom, if_neg (Ne.symm hc), partsFrom_plain cs hw,
      List.map_cons, List.cons_append]

/-- Within a placeholder, all up to the closing brace is its name. -/
theorem partsFrom_name (cs : List Char) : ∀ {name : List Char} (acc : List Char), '\x7d' ∉ name →
    partsFrom (some acc) (name ++ cs) = partsFrom (some (name.reverse ++ acc)) cs
  | [], _, _ => rfl
  | c :: name, acc, h => by
    obtain ⟨hc, hname⟩ := List.ne_and_not_mem_of_not_mem_cons h
    rw [List.cons_append, partsFrom, if_neg (Ne.symm hc),
      partsFrom_name cs _ hname, List.reverse_cons, List.append_assoc, List.singleton_append]

/-- A placeholder that stands by itself is read as one. -/
theorem partsFrom_placeholder (cs : List Char) {name : List Char} (hne : name ≠ [])
    (h : '\x7d' ∉ name) :
    partsFrom none ('\x7b' :: name ++ '\x7d' :: cs) =
      placeholder (String.ofList name) :: partsFrom none cs := by
  rw [List.cons_append, partsFrom, if_pos rfl, partsFrom_name _ _ h, partsFrom,
    if_pos rfl, List.append_nil, if_neg (by simpa using hne), List.reverse_reverse,
    List.singleton_append]

/-- Where a name stands between braces a placeholder ends, though it may have begun before. -/
theorem exists_placeholder_mem {name : List Char} (hne : name ≠ []) (hname : '\x7d' ∉ name)
    (before after : List Char) : ∀ acc : Option (List Char),
      ∃ found, placeholder found ∈ partsFrom acc (before ++ '\x7b' :: name ++ '\x7d' :: after) := by
  induction before with
  | nil =>
    intro acc
    rw [List.nil_append]
    cases acc with
    | none =>
      rw [partsFrom_placeholder after hne hname]
      exact ⟨_, List.mem_cons_self⟩
    | some acc =>
      rw [List.cons_append, partsFrom, if_neg (by decide), partsFrom_name _ _ hname,
        partsFrom, if_pos rfl, if_neg (by simp)]
      exact ⟨_, List.mem_cons_self⟩
  | cons c before ih =>
    intro acc
    rw [List.cons_append, List.cons_append]
    cases acc with
    | none =>
      rw [partsFrom]
      split
      · exact ih (some [])
      · obtain ⟨found, h⟩ := ih none
        exact ⟨found, List.mem_cons_of_mem _ h⟩
    | some acc =>
      rw [partsFrom]
      split
      · obtain ⟨found, h⟩ := ih none
        exact ⟨found, List.mem_append_right _ h⟩
      · exact ih (some (c :: acc))

/-- A filled template is read as the parts that those of the template became, if what is filled in
holds no opening brace. -/
theorem partsFrom_fillFrom (htext : ∀ name s, text? name = some s → '\x7b' ∉ s.toList)
    (hacc : '\x7d' ∉ pendingText acc) :
    partsFrom none (fillFrom text? acc cs) = (partsFrom acc cs).flatMap (settledBy text?) := by
  fun_induction partsFrom acc cs with
  | case1 => rfl
  | case2 acc =>
    have hname : '\x7d' ∉ acc.reverse := by simpa [pendingText] using hacc
    have hread := partsFrom_name [] [] hname
    rw [List.append_nil, List.append_nil, List.reverse_reverse] at hread
    rw [flatMap_settledBy_chars, fillFrom, partsFrom, if_pos rfl, hread]
    rfl
  | case3 cs ih => simpa [fillFrom] using ih (by decide)
  | case4 c cs hc ih => simpa [fillFrom, hc, settledBy, partsFrom] using ih (by decide)
  | case5 acc cs ih =>
    rw [List.flatMap_append, ← ih (by decide), fillFrom, if_pos rfl]
    cases acc with
    | nil => rfl
    | cons a acc =>
      have hname : '\x7d' ∉ (a :: acc).reverse := by simpa [pendingText] using hacc
      have hne : (a :: acc).reverse ≠ [] := by simp
      generalize (a :: acc).reverse = name at hname hne
      cases h : text? (String.ofList name) with
      | none =>
        have hread := partsFrom_placeholder (fillFrom text? none cs) hne hname
        simpa [settledBy, h] using hread
      | some s =>
        have hread := partsFrom_plain (fillFrom text? none cs) (htext _ s h)
        simpa [settledBy, h] using hread
  | case6 acc c cs hc ih =>
    have hne : '\x7d' ≠ c := Ne.symm hc
    simpa [fillFrom, hc] using ih (by simpa [pendingText, hne] using hacc)

end Parts

/-! ## Filled templates -/

/-- A text in which a name stands between braces. -/
def HasPlaceholder (s : String) : Prop :=
  ∃ before name after, name ≠ [] ∧ '\x7d' ∉ name ∧
    s.toList = before ++ '\x7b' :: name ++ '\x7d' :: after

section Filled

variable {text? : String → Option String}

/-- Nothing of a template is lost in its parts. -/
theorem flatMap_text_templateParts (template : String) :
    (templateParts template).flatMap text = template.toList :=
  flatMap_text_partsFrom none template.toList

theorem placeholdersOf_eq (template : String) :
    placeholdersOf template = (templateParts template).filterMap name? :=
  placeholdersFrom_eq none template.toList

/-- The placeholders of a template are its parts between braces. -/
theorem mem_placeholdersOf {template name : String} :
    name ∈ placeholdersOf template ↔ placeholder name ∈ templateParts template := by
  rw [placeholdersOf_eq, List.mem_filterMap]
  constructor
  · rintro ⟨c | other, hmem, hname⟩
    · cases hname
    · rw [← Option.some.inj hname]
      exact hmem
  · intro hmem
    exact ⟨_, hmem, rfl⟩

/-- A template is filled part by part. -/
theorem toList_fillWith (text? : String → Option String) (template : String) :
    (fillWith text? template).toList = (templateParts template).flatMap (filledBy text?) := by
  rw [fillWith, String.toList_ofList, fillFrom_eq]
  rfl

/-- Only the texts of the placeholders of a template matter. -/
theorem fillWith_congr {first? second? : String → Option String} {template : String}
    (h : ∀ name ∈ placeholdersOf template, first? name = second? name) :
    fillWith first? template = fillWith second? template := by
  refine String.toList_injective ?_
  rw [toList_fillWith, toList_fillWith]
  refine List.flatMap_congr fun part hpart => ?_
  cases part with
  | char c => rfl
  | placeholder name => rw [filledBy, filledBy, h name (mem_placeholdersOf.2 hpart)]

/-- The characters of a filled template are those of the template and of what is filled in. -/
theorem mem_fillWith {template : String} {c : Char} (h : c ∈ (fillWith text? template).toList) :
    c ∈ template.toList ∨ ∃ name s, text? name = some s ∧ c ∈ s.toList := by
  rw [toList_fillWith] at h
  obtain ⟨part, hpart, hc⟩ := List.mem_flatMap.1 h
  have hkept : c ∈ part.text → c ∈ template.toList := by
    intro hc
    rw [← flatMap_text_templateParts]
    exact List.mem_flatMap.2 ⟨part, hpart, hc⟩
  cases part with
  | char d => exact Or.inl (hkept hc)
  | placeholder name =>
    rw [filledBy] at hc
    cases htext : text? name with
    | none =>
      rw [htext] at hc
      exact Or.inl (hkept hc)
    | some s =>
      rw [htext] at hc
      exact Or.inr ⟨name, s, htext, hc⟩

/-- What is filled in is not read again. -/
theorem templateParts_fillWith (htext : ∀ name s, text? name = some s → '\x7b' ∉ s.toList)
    (template : String) :
    templateParts (fillWith text? template) =
      (templateParts template).flatMap (settledBy text?) := by
  rw [templateParts, fillWith, String.toList_ofList, partsFrom_fillFrom htext (by decide)]
  rfl

/-- Filling a template twice puts the first text that a placeholder has in its place. -/
theorem fillWith_fillWith {first? : String → Option String}
    (htext : ∀ name s, first? name = some s → '\x7b' ∉ s.toList) (second? : String → Option String)
    (template : String) :
    fillWith second? (fillWith first? template) =
      fillWith (fun name => (first? name).or (second? name)) template := by
  refine String.toList_injective ?_
  rw [toList_fillWith, toList_fillWith, templateParts_fillWith htext, List.flatMap_assoc]
  refine List.flatMap_congr fun part _ => ?_
  cases part with
  | char c => rfl
  | placeholder name =>
    cases h : first? name with
    | none => simp [settledBy, filledBy, h]
    | some s => simp [settledBy, filledBy, h, flatMap_filledBy_chars]

/-- The placeholders of a filled template are those that have no text. -/
theorem placeholdersOf_fillWith (htext : ∀ name s, text? name = some s → '\x7b' ∉ s.toList)
    (template : String) :
    placeholdersOf (fillWith text? template) =
      (placeholdersOf template).filter fun name => (text? name).isNone := by
  rw [placeholdersOf_eq, placeholdersOf_eq, templateParts_fillWith htext, List.filterMap_flatMap,
    List.filter_filterMap, List.filterMap_eq_flatMap_toList]
  refine List.flatMap_congr fun part _ => ?_
  cases part with
  | char c => rfl
  | placeholder name =>
    rw [name?, Option.filter, settledBy]
    cases text? name with
    | none => rfl
    | some s => exact filterMap_name_chars s.toList

/-- The placeholders of a text are the names that stand between its braces. -/
theorem hasPlaceholder_iff {s : String} : HasPlaceholder s ↔ placeholdersOf s ≠ [] := by
  constructor
  · rintro ⟨before, name, after, hne, hname, hs⟩
    obtain ⟨found, hfound⟩ := exists_placeholder_mem hne hname before after none
    rw [← hs] at hfound
    exact List.ne_nil_of_mem (mem_placeholdersOf.2 hfound)
  · intro h
    obtain ⟨name, hmem⟩ := List.exists_mem_of_ne_nil _ h
    have hpart := mem_placeholdersOf.1 hmem
    obtain ⟨hne, hbrace⟩ := name_of_mem_partsFrom (by decide) hpart
    obtain ⟨front, back, hparts⟩ := List.append_of_mem hpart
    refine ⟨front.flatMap text, name.toList, back.flatMap text, by simpa using hne, hbrace, ?_⟩
    rw [← flatMap_text_templateParts, hparts]
    simp [text]

end Filled

/-! ## Values in templates -/

namespace NamedValues

/-- The value that a name is given. -/
def given? (values : NamedValues) (name : String) : Option Value :=
  (values.lookup name).filter fun v => !v.isNone

/-- The text that a placeholder of the name is filled with. -/
def encodedText? (values : NamedValues) (name : String) : Option String :=
  (values.given? name).bind fun v => v.wireText?.map percentEncoded

/-- The values that are given have a text. -/
def HaveTexts (values : NamedValues) : Prop :=
  ∀ name v, values.given? name = some v → v.wireText?.isSome

/-- The values that some names are given have a text. -/
def HaveTextsFor (values : NamedValues) (names : List String) : Prop :=
  ∀ name ∈ names, ∀ v, values.given? name = some v → v.wireText?.isSome

variable {values : NamedValues}

/-- Values have texts for several names just if they have one for each. -/
theorem haveTextsFor_cons {name : String} {names : List String} :
    values.HaveTextsFor (name :: names) ↔
    (∀ v, values.given? name = some v → v.wireText?.isSome) ∧ values.HaveTextsFor names :=
  List.forall_mem_cons

/-- What is filled in holds no marks. -/
theorem notMem_encodedText {c : Char} (hc : Percent.isUnreserved c = false) (hpercent : c ≠ '%')
    {name s : String} (h : values.encodedText? name = some s) : c ∉ s.toList := by
  obtain ⟨v, -, hv⟩ := Option.bind_eq_some_iff.1 h
  obtain ⟨t, -, rfl⟩ := Option.map_eq_some_iff.1 hv
  intro hmem
  rcases mem_percentEncoded hmem with h | h
  · rw [hc] at h
    cases h
  · exact hpercent h

/-- A percent-encoded value has no brace in it, so filling never makes a new placeholder. -/
theorem braceless_encodedText (values : NamedValues) (name s : String)
    (h : values.encodedText? name = some s) : '\x7b' ∉ s.toList :=
  notMem_encodedText (by decide) (by decide) h

/-- Values that have texts leave open what is not given, and nothing else. -/
theorem encodedText_isNone (h : values.HaveTexts) (name : String) :
    (values.encodedText? name).isNone = (values.given? name).isNone := by
  rw [encodedText?]
  cases hv : values.given? name with
  | none => rfl
  | some v =>
    obtain ⟨s, hs⟩ := Option.isSome_iff_exists.1 (h name v hv)
    rw [Option.bind_some, hs]
    rfl

theorem haveTexts_of_forall (h : ∀ p ∈ values, p.2.wireText?.isSome) : values.HaveTexts := by
  intro name v hv
  obtain ⟨hlookup, -⟩ := Option.filter_eq_some_iff.1 hv
  exact h (name, v) (mem_of_lookup hlookup)

variable {first second both : NamedValues}

/-- Values of two kinds have texts together if those that win do, and those that are left. -/
theorem haveTexts_both (hfirst : first.HaveTexts) (hsecond : second.HaveTexts)
    (hboth : ∀ name, both.given? name = (first.given? name).or (second.given? name)) :
    both.HaveTexts := by
  intro name v hv
  rw [hboth, Option.or_eq_some_iff] at hv
  rcases hv with hv | ⟨-, hv⟩
  · exact hfirst name v hv
  · exact hsecond name v hv

/-- The text of a name is that of the first values, else that of the second. -/
theorem encodedText_both (hfirst : first.HaveTexts)
    (hboth : ∀ name, both.given? name = (first.given? name).or (second.given? name))
    (name : String) :
    both.encodedText? name = (first.encodedText? name).or (second.encodedText? name) := by
  rw [encodedText?, hboth, encodedText?, encodedText?]
  cases hv : first.given? name with
  | none => rfl
  | some v =>
    obtain ⟨s, hs⟩ := Option.isSome_iff_exists.1 (hfirst name v hv)
    simp only [Option.some_or, Option.bind_some, hs, Option.map_some]

end NamedValues

section Fill

open NamedValues

variable {values : NamedValues}

/-- Looking a name up in what is given for some names. -/
theorem lookup_filterMap (f : String → Option String) (name : String) : ∀ names : List String,
    (names.filterMap fun n => (f n).map (n, ·)).lookup name = if name ∈ names then f name else none
  | [] => rfl
  | n :: names => by
    have ih := lookup_filterMap f name names
    rw [List.filterMap_cons]
    by_cases heq : name = n
    · subst heq
      rw [if_pos List.mem_cons_self]
      cases h : f name with
      | none => simpa [h] using ih
      | some s => simp
    · cases h : f n with
      | none => simpa [heq] using ih
      | some s => simpa [heq, List.lookup_cons, beq_eq_false_iff_ne.2 heq] using ih

/-- Placeholders have texts just if the values that they are given have. -/
theorem placeholderTexts_ok : ∀ {names : List String} (texts : List (String × String)),
    placeholderTexts values names = .ok texts ↔ values.HaveTextsFor names ∧
      (names.filterMap fun name => (values.encodedText? name).map (name, ·)) = texts
  | [], texts => by simp [placeholderTexts, HaveTextsFor]
  | name :: names, texts => by
    have ih := @placeholderTexts_ok names
    rw [placeholderTexts, List.filterMap_cons, haveTextsFor_cons]
    cases hv : values.lookup name with
    | none =>
      have hgiven : values.given? name = none := by rw [given?, hv, Option.filter_none]
      have htext : values.encodedText? name = none := by rw [encodedText?, hgiven, Option.bind_none]
      simp [hgiven, htext, ih]
    | some v =>
      have hgiven : values.given? name = if v.isNone then none else some v := by
        rw [given?, hv, Option.filter]
        cases v.isNone <;> rfl
      cases hnone : v.isNone with
      | true =>
        rw [hnone, if_pos rfl] at hgiven
        have htext : values.encodedText? name = none := by
          rw [encodedText?, hgiven, Option.bind_none]
        simp [hgiven, htext, hnone, ih]
      | false =>
        rw [hnone, if_neg Bool.false_ne_true] at hgiven
        have htext : values.encodedText? name = v.wireText?.map percentEncoded := by
          rw [encodedText?, hgiven, Option.bind_some]
        cases hs : v.wireText? with
        | none => simp [hgiven, hnone, wireText, hs, bind, Except.bind]
        | some s =>
          simp only [hnone, Bool.false_eq_true, if_false, wireText, hs, htext,
            hgiven, Option.some.injEq, forall_eq', Option.isSome_some, true_and, Option.map_some,
            Result.bind_ok, Result.pure_ok,
            Except.ok.injEq, exists_eq_left', ih, and_assoc, exists_and_left]

/-- A template is filled just if the values that its placeholders are given have texts. -/
theorem fill_ok {template filled : String} : fill template values = .ok filled ↔
    values.HaveTextsFor (placeholdersOf template) ∧
    fillWith values.encodedText? template = filled := by
  have hfilled : ∀ texts, (placeholdersOf template).filterMap
      (fun name => (values.encodedText? name).map (name, ·)) = texts →
        fillWith (texts.lookup ·) template = fillWith values.encodedText? template := by
    rintro _ rfl
    refine fillWith_congr fun name hname => ?_
    rw [lookup_filterMap, if_pos hname]
  rw [fill, Result.bind_ok]
  simp only [placeholderTexts_ok, Result.pure_ok, and_assoc, exists_and_left,
    exists_eq_left', hfilled _ rfl]

/-- Where all values have texts, filling a template does not fail. -/
theorem fill_eq (h : values.HaveTexts) (template : String) :
    fill template values = .ok (fillWith values.encodedText? template) :=
  fill_ok.2 ⟨fun name _ => h name, rfl⟩

variable {template : String} {first second both : NamedValues}

/-- Filling a template first with some values and then with others does what filling it once with
both does, where the first values come before the second. The first filling leaves just the
placeholders that it gives no value; each part of the template is filled by itself; and once all
placeholders of a resource's path are given a value, no name stands between braces any more. -/
theorem fill_in_stages (hfirst : first.HaveTexts) (hsecond : second.HaveTexts)
    (hboth : ∀ name, both.given? name = (first.given? name).or (second.given? name)) :
    ∃ filled done, fill template first = .ok filled ∧ fill filled second = .ok done ∧
      fill template both = .ok done ∧
      placeholdersOf filled =
        ((placeholdersOf template).filter fun name => (first.given? name).isNone) ∧
      done.toList = (templateParts template).flatMap (filledBy both.encodedText?) ∧
      ∀ r : Resource,
        r.path = some template → (∀ name ∈ r.placeholders, (both.given? name).isSome) →
        ¬HasPlaceholder done := by
  have hall : both.HaveTexts := haveTexts_both hfirst hsecond hboth
  have htwice : fillWith second.encodedText? (fillWith first.encodedText? template) =
      fillWith both.encodedText? template := by
    rw [fillWith_fillWith (braceless_encodedText first)]
    exact fillWith_congr fun name _ => (encodedText_both hfirst hboth name).symm
  refine ⟨_, _, fill_eq hfirst template,
    fill_eq hsecond _, by rw [htwice, fill_eq hall], ?_, ?_, ?_⟩
  · rw [placeholdersOf_fillWith (braceless_encodedText first)]
    exact List.filter_congr fun name _ => encodedText_isNone hfirst name
  · rw [htwice, toList_fillWith]
  · intro r hpath hgiven
    rw [htwice, hasPlaceholder_iff, ne_eq, not_not,
      placeholdersOf_fillWith (braceless_encodedText both), List.filter_eq_nil_iff]
    intro name hname
    have hplaceholder : name ∈ r.placeholders := by
      rw [Resource.placeholders, hpath]
      exact hname
    rw [encodedText_isNone hall, Option.isNone_iff_eq_none, ← ne_eq, ← Option.isSome_iff_ne_none]
    exact hgiven name hplaceholder

/-- A value that looks like a placeholder is not filled. -/
theorem fill_in_stages_braced :
    ∃ filled done,
      fill "\x7ba\x7d/\x7bb\x7d" [("a", .text "\x7bb\x7d"), ("b", .none)] = .ok filled ∧
      fill filled [("a", .bool true), ("b", .int 3)] = .ok done ∧
      fill "\x7ba\x7d/\x7bb\x7d" [("a", .text "\x7bb\x7d"), ("b", .int 3)] = .ok done ∧
      ¬HasPlaceholder done := by
  have hboth : ∀ name, given? [("a", .text "\x7bb\x7d"), ("b", .int 3)] name =
      (given? [("a", .text "\x7bb\x7d"), ("b", .none)] name).or
        (given? [("a", .bool true), ("b", .int 3)] name) := by
    intro name
    simp only [given?, List.lookup_cons, List.lookup_nil]
    cases name == "a" <;> cases name == "b" <;> rfl
  obtain ⟨filled, done, hfilled, hdone, honce, -, -, hnone⟩ :=
    fill_in_stages (haveTexts_of_forall (by decide)) (haveTexts_of_forall (by decide)) hboth
  exact ⟨filled, done, hfilled, hdone, honce,
    hnone ⟨none, some "\x7ba\x7d/\x7bb\x7d", [], "", [], [], [], []⟩ rfl (by decide)⟩

example : fill "\x7ba\x7d/\x7bb\x7d" [("a", .text "\x7bb\x7d")] = .ok "%7Bb%7D/\x7bb\x7d" := by rfl

end Fill

end Wadl
