import Mathlib.Data.List.TakeWhile
import Wadl.Proofs.Tables
import Wadl.Xml.Reader

/-!
# Names that are read

A name is cut at its colon (`splitName_colon`, `splitName_of_isName`), and the prefix before it
stands for a namespace that was declared. So the names of a tag that is read are proper ones
(`proper_resolveTag`): their labels are names of XML, and their namespaces can be declared again.
-/

namespace Wadl.Xml

/-- A text that a document may hold. -/
def IsText (s : String) : Prop := ∀ c ∈ s.toList, isChar c = true

/-- What a loop over a list finds satisfies what every single result does. -/
theorem forall_mem_of_mapM {α β : Type} {f : α → Option β} {P : β → Prop} :
    ∀ {xs : List α} {ys : List β}, xs.mapM f = some ys → (∀ x ∈ xs, ∀ y, f x = some y → P y) →
      ∀ y ∈ ys, P y
  | [], ys, h, _ => by
    obtain rfl : [] = ys := Option.some.inj h
    simp
  | x :: xs, ys, h, hstep => by
    rw [List.mapM_cons] at h
    simp only [Option.bind_eq_bind, Option.bind_eq_some_iff] at h
    obtain ⟨y, hy, ys', hys, h⟩ := h
    rw [← Option.some.inj h]
    exact List.forall_mem_cons.2 ⟨hstep x List.mem_cons_self y hy,
      forall_mem_of_mapM hys fun z hz => hstep z (List.mem_cons_of_mem x hz)⟩

theorem allDistinct_iff {α : Type} [BEq α] [LawfulBEq α] :
    ∀ {xs : List α}, allDistinct xs = true ↔ xs.Nodup
  | [] => by simp [allDistinct]
  | x :: xs => by simp [allDistinct, allDistinct_iff]

/-! ## Names of XML -/

theorem colon_notMem_of_isName {cs : List Char} (h : isName cs = true) : ':' ∉ cs := by
  cases cs with
  | nil => exact List.not_mem_nil
  | cons c cs =>
    rw [isName, Bool.and_eq_true, List.all_eq_true] at h
    rintro (_ | ⟨_, hmem⟩)
    · exact absurd h.1 (by decide)
    · exact absurd (h.2 _ hmem) (by decide)

theorem splitName_of_notMem {cs : List Char} (h : ':' ∉ cs) : splitName cs = ([], cs) := by
  have hdrop : cs.dropWhile (· != ':') = [] := by
    refine List.dropWhile_eq_nil_iff.2 fun c hc => bne_iff_ne.2 ?_
    rintro rfl
    exact h hc
  rw [splitName, hdrop]

/-- A name without a colon has no prefix. -/
theorem splitName_of_isName {cs : List Char} (h : isName cs = true) : splitName cs = ([], cs) :=
  splitName_of_notMem (colon_notMem_of_isName h)

/-- A name is cut at its first colon. -/
theorem splitName_colon {mark : List Char} (h : ':' ∉ mark) (label : List Char) :
    splitName (mark ++ ':' :: label) = (mark, label) := by
  have hmark : ∀ c ∈ mark, (c != ':') = true := by
    intro c hc
    rw [bne_iff_ne]
    rintro rfl
    exact h hc
  rw [splitName, List.dropWhile_append_of_pos hmark, List.takeWhile_append_of_pos hmark]
  simp

/-- The parts of a qualified name are names. -/
theorem isName_splitName {cs : List Char} (h : isQualifiedName cs = true) :
    isName (splitName cs).2 = true ∧ ((splitName cs).1 = [] ∨ isName (splitName cs).1 = true) := by
  unfold isQualifiedName at h
  unfold splitName
  split at h
  · rename_i hdrop
    rw [← List.takeWhile_append_dropWhile (p := (· != ':')) (l := cs), hdrop, List.append_nil] at h
    rw [hdrop]
    refine ⟨?_, .inl rfl⟩
    have htake : (List.takeWhile (· != ':') cs).takeWhile (· != ':') = cs := by
      rw [List.takeWhile_takeWhile]
      simpa [hdrop] using List.takeWhile_append_dropWhile (p := (· != ':')) (l := cs)
    rwa [htake] at h
  · rename_i c second hdrop
    rw [hdrop]
    rw [Bool.and_eq_true] at h
    exact ⟨h.2, .inr h.1⟩

/-! ## Namespaces -/

/-- A namespace that a prefix can be declared for. -/
structure IsSpaceName (space : String) : Prop where
  filled : space ≠ ""
  declares : space ≠ xmlnsNamespace
  closing : '\x7d' ∉ space.toList
  text : IsText space

theorem isSpaceName_xml : IsSpaceName xmlNamespace := by
  have htext : ∀ c ∈ xmlNamespace.toList, isChar c = true := List.all_eq_true.1 (by decide)
  exact ⟨by decide, by decide, by decide, htext⟩

/-- A name whose label is a name of XML and whose namespace, if it has one, can be declared. -/
structure Name.Proper (n : Name) : Prop where
  label : isName n.label.toList = true
  space : ∀ s, n.space = some s → IsSpaceName s

/-- A tag with proper names, whose attributes differ and declare nothing. -/
structure Tag.Proper (t : Tag) : Prop where
  name : t.name.Proper
  attributes : ∀ a ∈ t.attributes, a.1.Proper ∧ a.1 ≠ .plain "xmlns" ∧ IsText a.2
  distinct : (t.attributes.map (·.1)).Nodup

/-- The namespace of elements without a prefix. -/
def Bindings.default? (bindings : Bindings) : Option String :=
  (bindings.lookup []).bind fun s => if s = "" then none else some s

theorem elementName_of_isName {name : List Char} (h : isName name = true) (bindings : Bindings) :
    elementName? bindings name = some ⟨bindings.default?, String.ofList name⟩ := by
  rw [elementName?, splitName_of_isName h]
  rfl

/-- Attributes that declare nothing leave the bindings as they are. -/
theorem declare_of_plain {bindings : Bindings} {attributes : List (List Char × String)}
    (h : ∀ a ∈ attributes, declaredPrefix? a.1 = none) :
    declare bindings attributes = some bindings := by
  induction attributes with
  | nil => rfl
  | cons a attributes ih =>
    obtain ⟨ha, hrest⟩ := List.forall_mem_cons.1 h
    rw [declare, ha]
    exact ih hrest

/-- Bindings to namespaces that can be declared; the default may be unset. -/
def Bindings.Proper (bindings : Bindings) : Prop :=
  ∀ b ∈ bindings, b.1 = [] ∧ b.2 = "" ∨ IsSpaceName b.2

theorem Bindings.Proper.declare :
    ∀ {attributes : List (List Char × String)} {bindings inner : Bindings}, bindings.Proper →
      (∀ a ∈ attributes, IsText a.2) → Xml.declare bindings attributes = some inner → inner.Proper
  | [], bindings, inner, hb, _, h => by
    rwa [← Option.some.inj h]
  | (name, value) :: rest, bindings, inner, hb, hattributes, h => by
    obtain ⟨hvalue, hrest⟩ := List.forall_mem_cons.1 hattributes
    unfold Xml.declare at h
    split at h
    · rename_i mark _
      split at h
      · rename_i hdeclarable
        refine Bindings.Proper.declare (List.forall_mem_cons.2 ⟨?_, hb⟩) hrest h
        simp only [isDeclarable, Bool.and_eq_true, Bool.or_eq_true, bne_iff_ne, Bool.not_eq_true',
          List.isEmpty_iff] at hdeclarable
        obtain ⟨⟨⟨⟨-, -⟩, hxmlns⟩, hempty⟩, hclosing⟩ := hdeclarable
        by_cases hfilled : value = ""
        · exact .inl ⟨hempty.resolve_right (not_not.2 hfilled), hfilled⟩
        · exact .inr ⟨hfilled, hxmlns, by simpa using hclosing, hvalue⟩
      · cases h
    · exact hb.declare hrest h

/-- What a prefix is bound to can be declared. -/
theorem Bindings.Proper.bound {bindings : Bindings} (hb : bindings.Proper) {mark : List Char}
    (hmark : mark ≠ []) {space : String} (h : bound? bindings mark = some space) :
    IsSpaceName space := by
  unfold bound? at h
  split at h
  · rw [← Option.some.inj h]
    exact isSpaceName_xml
  · exact (hb _ (mem_of_lookup h)).resolve_left fun hnone => hmark hnone.1

theorem Bindings.Proper.elementName {bindings : Bindings} (hb : bindings.Proper) {name : List Char}
    (hname : isQualifiedName name = true) {n : Name} (h : elementName? bindings name = some n) :
    n.Proper := by
  obtain ⟨hlabel, -⟩ := isName_splitName hname
  rcases hsplit : splitName name with ⟨mark, label⟩
  rw [hsplit] at hlabel
  simp only [elementName?, hsplit] at h
  split at h
  · rw [← Option.some.inj h]
    refine ⟨by rwa [String.toList_ofList], fun s hs => ?_⟩
    obtain ⟨space, hspace, hs⟩ := Option.bind_eq_some_iff.1 hs
    split at hs
    · cases hs
    · rename_i hfilled
      obtain rfl := Option.some.inj hs
      exact (hb _ (mem_of_lookup hspace)).resolve_left fun hnone => hfilled hnone.2
  · rename_i hmark
    obtain ⟨space, hspace, rfl⟩ := Option.map_eq_some_iff.1 h
    refine ⟨by rwa [String.toList_ofList], fun s hs => ?_⟩
    rw [← Option.some.inj hs]
    exact hb.bound (by simpa using hmark) hspace

theorem Bindings.Proper.attributeName {bindings : Bindings}
    (hb : bindings.Proper) {name : List Char} (hname : isQualifiedName name = true)
    (hplain : declaredPrefix? name = none) {n : Name} (h : attributeName? bindings name = some n) :
    n.Proper ∧ n ≠ .plain "xmlns" := by
  obtain ⟨hlabel, -⟩ := isName_splitName hname
  rcases hsplit : splitName name with ⟨mark, label⟩
  rw [hsplit] at hlabel
  simp only [attributeName?, hsplit] at h
  split at h
  · rename_i hmark
    obtain rfl := List.isEmpty_iff.1 hmark
    rw [← Option.some.inj h]
    refine ⟨⟨by rwa [String.toList_ofList], nofun⟩, fun hxmlns => ?_⟩
    have hlabel' : label = "xmlns".toList := by
      rw [← (Name.mk.inj hxmlns).2, String.toList_ofList]
    rw [declaredPrefix?, hsplit, hlabel'] at hplain
    exact absurd hplain (by decide)
  · rename_i hmark
    obtain ⟨space, hspace, rfl⟩ := Option.map_eq_some_iff.1 h
    refine ⟨⟨by rwa [String.toList_ofList], fun s hs => ?_⟩,
      fun hxmlns => nomatch (Name.mk.inj hxmlns).1⟩
    rw [← Option.some.inj hs]
    exact hb.bound (by simpa using hmark) hspace

/-- A tag that is read is a proper one, and so are the bindings inside. -/
theorem proper_resolveTag {bindings inner : Bindings} {name : List Char}
    {attributes : List (List Char × String)} {tag : Tag} (hb : bindings.Proper)
    (hname : isQualifiedName name = true)
    (hattributes : ∀ a ∈ attributes, isQualifiedName a.1 = true ∧ IsText a.2)
    (h : resolveTag bindings name attributes = some (tag, inner)) : tag.Proper ∧ inner.Proper := by
  unfold resolveTag at h
  simp only [Option.bind_eq_bind, Option.bind_eq_some_iff] at h
  obtain ⟨found, hfound, resolved, hresolved, h⟩ := h
  have hinner := hb.declare (fun a ha => (hattributes a ha).2) hfound
  split at h
  · rename_i hdistinct
    simp only [Option.bind_eq_some_iff] at h
    obtain ⟨n, hn, h⟩ := h
    obtain ⟨rfl, rfl⟩ := Prod.mk.inj (Option.some.inj h)
    rw [Bool.and_eq_true] at hdistinct
    refine ⟨⟨hinner.elementName hname hn, ?_, allDistinct_iff.1 hdistinct.2⟩, hinner⟩
    refine forall_mem_of_mapM hresolved fun b hb a ha => ?_
    obtain ⟨hmem, hplain⟩ := List.mem_filter.1 hb
    obtain ⟨hqualified, htext⟩ := hattributes b hmem
    obtain ⟨m, hm, rfl⟩ := Option.map_eq_some_iff.1 ha
    obtain ⟨hproper, hxmlns⟩ :=
      hinner.attributeName hqualified (Option.isNone_iff_eq_none.1 hplain) hm
    exact ⟨hproper, hxmlns, htext⟩
  · cases h

end Wadl.Xml
