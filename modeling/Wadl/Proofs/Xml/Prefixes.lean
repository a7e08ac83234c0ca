import Wadl.Proofs.Number.Numeral
import Wadl.Proofs.Tables
import Wadl.Proofs.Xml.Content

/-!
# Prefixes that are read back

A table of prefixes is good if each of its namespaces can be declared and has one prefix of its own
(`Prefixes.Good`), and stays so whatever names are met (`good_meetAll`). Inside an element that
declares such a table, each name that was met is read back from its prefix and its label, but an
element without a namespace is adopted by the default one (`resolveTag_written`).
-/

namespace Wadl.Xml

/-! ## Customary prefixes and numbered ones -/

/-- The prefix of a namespace that has no customary one. -/
def numbered (n : Nat) : String := "ns" ++ toString n

theorem toList_numbered (n : Nat) : (numbered n).toList = 'n' :: 's' :: Nat.toDigits 10 n := by
  have hdigits : (toString n).toList = Nat.toDigits 10 n := Nat.toList_repr
  rw [numbered, String.toList_append, hdigits]
  rfl

/-- Numbered prefixes differ. -/
theorem numbered_injective : Function.Injective numbered := by
  intro m n h
  have hlists := congrArg String.toList h
  rw [toList_numbered, toList_numbered] at hlists
  have hdigits := (List.cons.inj (List.cons.inj hlists).2).2
  rw [← Numeral.digitsValue_toDigits m, hdigits, Numeral.digitsValue_toDigits]

/-- A numbered prefix is a name. -/
theorem isName_numbered (n : Nat) : isName (numbered n).toList = true := by
  have hdigit : ∀ c ∈ Nat.toDigits 10 n, isNamePart c = true := by
    intro c hc
    have hascii := Numeral.digits_toDigits n c hc
    have hbound := CharClass.isAsciiDigit_iff.1 hascii
    unfold isNamePart
    rw [if_pos (by omega), CharClass.isAsciiAlphanumeric, hascii]
    simp
  rw [toList_numbered, isName, Bool.and_eq_true, List.all_eq_true]
  exact ⟨by decide, List.forall_mem_cons.2 ⟨by decide, hdigit⟩⟩

/-- Customary prefixes are names, and differ from the numbered ones. -/
theorem customary_mark {space mark : String} (h : customaryPrefixes.lookup space = some mark) :
    isName mark.toList = true ∧ mark ≠ "xmlns" ∧ mark.toList.take 2 ≠ ['n', 's'] ∧
      (mark = "xml" → space = xmlNamespace) := by
  have hall : ∀ e ∈ customaryPrefixes, isName e.2.toList = true ∧ e.2 ≠ "xmlns" ∧
      e.2.toList.take 2 ≠ ['n', 's'] ∧ (e.2 = "xml" → e.1 = xmlNamespace) := by decide +kernel
  exact hall _ (mem_of_lookup h)

/-- No prefix is customary for two namespaces. -/
theorem customary_inj {space other mark : String} (h : customaryPrefixes.lookup space = some mark)
    (hother : customaryPrefixes.lookup other = some mark) : space = other := by
  have hall : ∀ e ∈ customaryPrefixes, ∀ f ∈ customaryPrefixes, e.2 = f.2 → e.1 = f.1 := by
    decide +kernel
  exact hall _ (mem_of_lookup h) _ (mem_of_lookup hother) rfl

/-- No customary prefix is a numbered one. -/
theorem customary_ne_numbered {space mark : String}
    (h : customaryPrefixes.lookup space = some mark) (n : Nat) : mark ≠ numbered n := by
  rintro rfl
  refine (customary_mark h).2.2.1 ?_
  rw [toList_numbered]
  rfl

namespace Prefixes

variable {ps : Prefixes}

/-! ## Good tables -/

/-- A table of prefixes whose namespaces can be declared, each with its customary prefix or with a
number that was free when it was met. -/
structure Good (ps : Prefixes) : Prop where
  spaces : ∀ p ∈ ps, IsSpaceName p.1 ∧ p.1 ≠ xmlNamespace
  marks : ∀ p ∈ ps, customaryPrefixes.lookup p.1 = some p.2 ∨
    customaryPrefixes.lookup p.1 = none ∧ ∃ n < ps.length, p.2 = numbered n
  distinct : (ps.map (·.2)).Nodup

theorem good_nil : Good [] := ⟨nofun, nofun, List.nodup_nil⟩

/-- A prefix is a name that may be declared. -/
theorem Good.mark (h : ps.Good) {p : String × String} (hp : p ∈ ps) :
    isName p.2.toList = true ∧ p.2 ≠ "xml" ∧ p.2 ≠ "xmlns" := by
  rcases h.marks p hp with hcustomary | ⟨-, n, -, hmark⟩
  · obtain ⟨hname, hxmlns, -, hxml⟩ := customary_mark hcustomary
    exact ⟨hname, fun heq => (h.spaces p hp).2 (hxml heq), hxmlns⟩
  · have hne : ∀ other : String, other.toList.take 2 ≠ ['n', 's'] → p.2 ≠ other := by
      rintro other hother rfl
      rw [hmark, toList_numbered] at hother
      exact hother rfl
    exact ⟨hmark ▸ isName_numbered n, hne "xml" (by decide), hne "xmlns" (by decide)⟩

/-- A table grows at its end, and only by a namespace that it does not hold. -/
theorem meet_cases (ps : Prefixes) (n : Name) :
    ps.meet n = ps ∨ ∃ space mark, n.space = some space ∧ ps.lookup space = none ∧
      space ≠ xmlNamespace ∧ (customaryPrefixes.lookup space = some mark ∨
        customaryPrefixes.lookup space = none ∧ mark = numbered ps.length) ∧
      ps.meet n = ps ++ [(space, mark)] := by
  have hxml : customaryPrefixes.lookup xmlNamespace = some "xml" := by decide
  cases hspace : n.space with
  | none => exact Or.inl (by rw [meet, hspace])
  | some space =>
    by_cases hheld : (ps.lookup space).isSome = true
    · exact Or.inl (by simp only [meet, hspace, hheld, if_true])
    have hnew : ps.lookup space = none := Option.not_isSome_iff_eq_none.1 hheld
    simp only [meet, hspace, hheld, Bool.false_eq_true, if_false]
    split
    · exact Or.inl rfl
    · rename_i mark hmark hcustomary
      refine Or.inr ⟨space, mark, rfl, hnew, ?_, Or.inl hcustomary, rfl⟩
      rintro rfl
      rw [hxml] at hcustomary
      exact hmark (Option.some.inj hcustomary).symm
    · rename_i hcustomary
      refine Or.inr ⟨space, numbered ps.length, rfl, hnew, ?_, Or.inr ⟨hcustomary, rfl⟩, rfl⟩
      rintro rfl
      rw [hxml] at hcustomary
      cases hcustomary

/-- Meeting a proper name keeps prefixes good: a new namespace gets a prefix of its own. -/
theorem Good.meet (h : ps.Good) {n : Name} (hn : n.Proper) : (ps.meet n).Good := by
  rcases ps.meet_cases n with heq | ⟨space, mark, hspace, hnew, hxml, hmark, heq⟩
  · rwa [heq]
  -- a customary prefix is free because its namespace was not met, a number because those in use are
  -- smaller
  have hfresh : ∀ p ∈ ps, p.2 ≠ mark := by
    rintro p hp rfl
    rcases hmark with hcustomary | ⟨hnone, hnumber⟩ <;>
      rcases h.marks p hp with hp' | ⟨hp', n, hn, hnumber'⟩
    · have hheld : ∃ other, ps.lookup space = some other :=
        mem_keys_of_lookup.1 (List.mem_map.2 ⟨p, hp, customary_inj hp' hcustomary⟩)
      rw [hnew] at hheld
      cases hheld.choose_spec
    · exact customary_ne_numbered hcustomary n hnumber'
    · exact customary_ne_numbered hp' _ hnumber
    · rw [hnumber'] at hnumber
      exact absurd (numbered_injective hnumber) (Nat.ne_of_lt hn)
  rw [heq]
  refine ⟨?_, ?_, ?_⟩
  · intro p hp
    rcases List.mem_append.1 hp with hp | hp
    · exact h.spaces p hp
    · rw [List.mem_singleton.1 hp]
      exact ⟨hn.space space hspace, hxml⟩
  · intro p hp
    rw [List.length_append, List.length_singleton]
    rcases List.mem_append.1 hp with hp | hp
    · exact (h.marks p hp).imp_right (And.imp_right fun ⟨n, hn, hmark⟩ => ⟨n, by omega, hmark⟩)
    · rw [List.mem_singleton.1 hp]
      exact hmark.imp_right (And.imp_right fun hmark => ⟨ps.length, by omega, hmark⟩)
  · rw [List.map_append, List.map_singleton, List.nodup_append]
    refine ⟨h.distinct, List.nodup_singleton _, ?_⟩
    rintro a ha b hb rfl
    obtain ⟨p, hp, rfl⟩ := List.mem_map.1 ha
    exact hfresh p hp (List.mem_singleton.1 hb)

/-! ## Names that were met -/

/-- A name whose prefix is known. -/
def Met (ps : Prefixes) (n : Name) : Prop :=
  ∀ space, n.space = some space → space = xmlNamespace ∨ ∃ mark, ps.lookup space = some mark

/-- Meeting a name keeps the prefixes that there are. -/
theorem prefix_meet (ps : Prefixes) (n : Name) : ps <+: ps.meet n := by
  rcases ps.meet_cases n with h | ⟨space, mark, -, -, -, -, h⟩
  · exact ⟨[], by rw [List.append_nil, h]⟩
  · rw [h]
    exact List.prefix_append ps _

theorem Met.mono {qs : Prefixes} {n : Name} (h : ps.Met n) (hle : ps <+: qs) : qs.Met n := by
  obtain ⟨more, rfl⟩ := hle
  intro space hspace
  refine (h space hspace).imp_right fun ⟨mark, hmark⟩ => ?_
  refine mem_keys_of_lookup.1 ?_
  rw [List.map_append, List.mem_append]
  exact Or.inl (mem_keys_of_lookup.2 ⟨mark, hmark⟩)

/-- A name that was met has a prefix. -/
theorem met_meet (ps : Prefixes) (n : Name) : (ps.meet n).Met n := by
  intro space hspace
  rcases hheld : ps.lookup space with _ | mark
  · by_cases hxml : space = xmlNamespace
    · exact Or.inl hxml
    · refine Or.inr (mem_keys_of_lookup.1 ?_)
      have hadded : ∃ mark, ps.meet n = ps ++ [(space, mark)] := by
        simp only [meet, hspace, hheld, Option.isSome_none, Bool.false_eq_true, if_false]
        split
        · rename_i hcustomary
          exact absurd ((customary_mark hcustomary).2.2.2 rfl) hxml
        · exact ⟨_, rfl⟩
        · exact ⟨_, rfl⟩
      obtain ⟨mark, hadded⟩ := hadded
      rw [hadded]
      simp
  · have hsame : ps.meet n = ps := by simp [meet, hspace, hheld]
    rw [hsame]
    exact Or.inr ⟨mark, hheld⟩

/-- The names of a tag whose prefixes are known. -/
def MetTag (ps : Prefixes) (tag : Tag) : Prop := ps.Met tag.name ∧ ∀ a ∈ tag.attributes, ps.Met a.1

theorem MetTag.mono {qs : Prefixes} {tag : Tag} (h : ps.MetTag tag) (hle : ps <+: qs) :
    qs.MetTag tag :=
  ⟨h.1.mono hle, fun a ha => (h.2 a ha).mono hle⟩

/-- A proper tag whose names were met. -/
def Knows (ps : Prefixes) (tag : Tag) : Prop := tag.Proper ∧ ps.MetTag tag

/-- The prefixes after the names of a tag were met. -/
def meetTag (ps : Prefixes) (tag : Tag) : Prefixes :=
  (tag.attributes.map (·.1)).foldl meet (ps.meet tag.name)

theorem prefix_foldl_meet : ∀ (ns : List Name) (ps : Prefixes), ps <+: ns.foldl meet ps
  | [], ps => List.prefix_refl ps
  | n :: ns, ps => (prefix_meet ps n).trans (prefix_foldl_meet ns (ps.meet n))

/-- Names that were met one by one all have prefixes. -/
theorem met_foldl_meet : ∀ (ns : List Name) (ps : Prefixes), ∀ n ∈ ns, (ns.foldl meet ps).Met n
  | [], _ => nofun
  | n :: ns, ps => List.forall_mem_cons.2
    ⟨(met_meet ps n).mono (prefix_foldl_meet ns _), met_foldl_meet ns (ps.meet n)⟩

theorem Good.foldl_meet : ∀ {ns : List Name} {ps : Prefixes}, ps.Good → (∀ n ∈ ns, n.Proper) →
    (ns.foldl Prefixes.meet ps).Good
  | [], _, h, _ => h
  | _ :: _, _, h, hns =>
    (h.meet (hns _ List.mem_cons_self)).foldl_meet (List.forall_mem_cons.1 hns).2

/-- Meeting a tag keeps the prefixes that there are. -/
theorem prefix_meetTag (ps : Prefixes) (tag : Tag) : ps <+: ps.meetTag tag :=
  (prefix_meet ps tag.name).trans (prefix_foldl_meet _ _)

/-- All names of a tag that was met have prefixes. -/
theorem metTag_meetTag (ps : Prefixes) (tag : Tag) : (ps.meetTag tag).MetTag tag :=
  ⟨(met_meet ps tag.name).mono (prefix_foldl_meet _ _),
    fun _ ha => met_foldl_meet _ _ _ (List.mem_map_of_mem ha)⟩

/-- Meeting a proper tag keeps prefixes good. -/
theorem Good.meetTag (h : ps.Good) {tag : Tag} (htag : tag.Proper) : (ps.meetTag tag).Good := by
  refine (h.meet htag.name).foldl_meet fun n hn => ?_
  obtain ⟨a, ha, rfl⟩ := List.mem_map.1 hn
  exact (htag.attributes a ha).1

end Prefixes

mutual

theorem prefix_meetAll (ps : Prefixes) : ∀ n : Node, ps <+: n.meetAll ps
  | .element tag content => (ps.prefix_meetTag tag).trans (prefix_meetAllList _ content)
  | .text _ => List.prefix_refl ps
  | .comment _ => List.prefix_refl ps
  | .instruction _ => List.prefix_refl ps

theorem prefix_meetAllList (ps : Prefixes) : ∀ content : List Node, ps <+: meetAllList ps content
  | [] => List.prefix_refl ps
  | n :: rest => (prefix_meetAll ps n).trans (prefix_meetAllList _ rest)

end

mutual

/-- The table of a piece is good. -/
theorem good_meetAll {ps : Prefixes} {M : Prop} (h : ps.Good) :
    ∀ {n : Node}, n.All Tag.Proper IsPiece M → (n.meetAll ps).Good
  | _, .element htag hinside => good_meetAllList (h.meetTag htag) hinside
  | _, .text _ => h
  | _, .comment _ => h
  | _, .instruction _ => h

theorem good_meetAllList {ps : Prefixes} {M : Prop} (h : ps.Good) :
    ∀ {content : List Node}, (∀ n ∈ content, n.All Tag.Proper IsPiece M) →
      (meetAllList ps content).Good
  | [], _ => h
  | _ :: _, hcontent =>
    good_meetAllList (good_meetAll h (hcontent _ List.mem_cons_self))
      (List.forall_mem_cons.1 hcontent).2

end

mutual

/-- All names in a piece are met. -/
theorem all_metTag {ps : Prefixes} {M : Prop} :
    ∀ {n : Node}, n.All Tag.Proper IsPiece M → n.All (n.meetAll ps).Knows IsPiece M
  | .element tag _, .element htag hinside =>
    .element ⟨htag, (ps.metTag_meetTag tag).mono (prefix_meetAllList _ _)⟩ (all_metTagList hinside)
  | _, .text hs => .text hs
  | _, .comment h => .comment h
  | _, .instruction h => .instruction h

theorem all_metTagList {ps : Prefixes} {M : Prop} :
    ∀ {content : List Node}, (∀ n ∈ content, n.All Tag.Proper IsPiece M) →
      ∀ n ∈ content, n.All (meetAllList ps content).Knows IsPiece M
  | [], _ => nofun
  | n :: rest, hcontent => by
    obtain ⟨hn, hrest⟩ := List.forall_mem_cons.1 hcontent
    have hfirst : n.All (meetAllList ps (n :: rest)).Knows IsPiece M := (all_metTag hn).mono
      (fun _ h => h.imp_right fun hmet => hmet.mono (prefix_meetAllList _ rest)) (fun _ => id) id
    exact List.forall_mem_cons.2 ⟨hfirst, all_metTagList hrest⟩

end

/-! ## Names read back -/

/-- A name in the default namespace, unless it has one. -/
def Name.adopt (default : Option String) (n : Name) : Name := ⟨n.space.or default, n.label⟩

section Qualify

variable {ps : Prefixes} {bindings : Bindings} {n : Name}

/-- Bindings that hold a table. -/
def Prefixes.Serves (ps : Prefixes) (bindings : Bindings) : Prop :=
  ∀ p ∈ ps, bindings.lookup p.2.toList = some p.1

/-- A name with a namespace is written with a prefix that is bound to it. -/
theorem qualify_prefixed (hps : ps.Good) (hserves : ps.Serves bindings)
    (hmet : ps.Met n) {space : String} (hspace : n.space = some space) :
    ∃ mark : String, ps.qualify n = mark ++ ":" ++ n.label ∧
      isName mark.toList = true ∧ mark ≠ "xmlns" ∧ bound? bindings mark.toList = some space := by
  unfold Prefixes.qualify
  rw [hspace]
  simp only
  rcases hheld : ps.lookup space with _ | mark
  · have hxml : space = xmlNamespace := by
      refine (hmet space hspace).resolve_right ?_
      rintro ⟨mark, hmark⟩
      rw [hheld] at hmark
      cases hmark
    exact ⟨"xml", rfl, by decide, by decide, by rw [hxml]; rfl⟩
  · have hmem := mem_of_lookup hheld
    obtain ⟨hname, hxml, hxmlns⟩ := hps.mark hmem
    refine ⟨mark, rfl, hname, hxmlns, ?_⟩
    rw [bound?, if_neg fun h => hxml (String.toList_inj.1 h)]
    exact hserves _ hmem

theorem toList_prefixed (mark label : String) :
    (mark ++ ":" ++ label).toList = mark.toList ++ ':' :: label.toList := by
  simp

/-- A name that was met is read back, as the name of an element and as that of an attribute. -/
theorem qualify_read (hps : ps.Good) (hserves : ps.Serves bindings) (hn : n.Proper)
    (hmet : ps.Met n) : isLabel (ps.qualify n).toList = true ∧
      elementName? bindings (ps.qualify n).toList = some (n.adopt bindings.default?) ∧
      attributeName? bindings (ps.qualify n).toList = some n ∧
      (n ≠ .plain "xmlns" → declaredPrefix? (ps.qualify n).toList = none) := by
  obtain ⟨space, label⟩ := n
  have hlabel : isName label.toList = true := hn.label
  cases space with
  | none =>
    have hplain : ps.qualify ⟨none, label⟩ = label := rfl
    rw [hplain, elementName?, attributeName?, declaredPrefix?, splitName_of_isName hlabel]
    refine ⟨isLabel_of_isName hlabel, ?_, ?_, fun hne => ?_⟩
    · simp [Name.adopt, Bindings.default?]
    · simp
    · refine if_neg fun h => hne ?_
      rw [String.toList_inj.1 h]
      rfl
  | some space =>
    obtain ⟨mark, hqualify, hmark, hxmlns, hbound⟩ := qualify_prefixed hps hserves hmet rfl
    obtain ⟨c, cs, hcs⟩ : ∃ c cs, mark.toList = c :: cs := by
      cases hlist : mark.toList with
      | nil =>
        rw [hlist] at hmark
        cases hmark
      | cons c cs => exact ⟨c, cs, rfl⟩
    have hsplit : splitName (mark.toList ++ ':' :: label.toList) = (mark.toList, label.toList) :=
      splitName_colon (colon_notMem_of_isName hmark) label.toList
    rw [hqualify, toList_prefixed]
    refine ⟨isLabel_colon hmark hlabel, ?_, ?_, fun _ => ?_⟩
    · rw [elementName?, hsplit, hcs]
      rw [hcs] at hbound
      simp [hbound, Name.adopt]
    · rw [attributeName?, hsplit, hcs]
      rw [hcs] at hbound
      simp [hbound]
    · rw [declaredPrefix?, hsplit, hcs]
      have hne : c :: cs ≠ "xmlns".toList := fun h => hxmlns (String.toList_inj.1 (hcs.trans h))
      exact if_neg hne

end Qualify

/-! ## Tags read back -/

/-- The attribute that declares a prefix. -/
def declaring (p : String × String) : String × String := ("xmlns:" ++ p.2, p.1)

/-- The bindings inside an element that declares some prefixes. -/
def Bindings.declaring (bindings : Bindings) (qs : Prefixes) : Bindings :=
  (qs.map fun p => (p.2.toList, p.1)).reverse ++ bindings

/-- The attributes of a tag with the prefixes of their names. -/
def Prefixes.qualified (ps : Prefixes) (tag : Tag) : List (String × String) :=
  tag.attributes.map fun a => (ps.qualify a.1, a.2)

/-- The declaration of a prefix declares it. -/
theorem declaredPrefix_declaring (p : String × String) :
    declaredPrefix? (declaring p).1.toList = some p.2.toList := by
  have hsplit : splitName ("xmlns".toList ++ ':' :: p.2.toList) = ("xmlns".toList, p.2.toList) :=
    splitName_colon (by decide) p.2.toList
  have hchars : (declaring p).1.toList = "xmlns".toList ++ ':' :: p.2.toList := by
    simp [declaring]
  rw [declaredPrefix?, hchars, hsplit]
  rfl

/-- Declarations bind their prefixes, one after the other. -/
theorem declare_declaring {qs : Prefixes} (hqs : ∀ p ∈ qs, isDeclarable p.2.toList p.1 = true)
    {attributes : List (List Char × String)} (h : ∀ a ∈ attributes, declaredPrefix? a.1 = none)
    (bindings : Bindings) :
    declare bindings (spelled (qs.map declaring) ++ attributes) = some (bindings.declaring qs) := by
  induction qs generalizing bindings with
  | nil => exact declare_of_plain h
  | cons p qs ih =>
    obtain ⟨hp, hrest⟩ := List.forall_mem_cons.1 hqs
    have hnext := ih hrest ((p.2.toList, p.1) :: bindings)
    have hmore : Bindings.declaring ((p.2.toList, p.1) :: bindings) qs =
        bindings.declaring (p :: qs) := by
      simp [Bindings.declaring]
    rw [hmore] at hnext
    rw [List.map_cons, spelled, List.map_cons, List.cons_append, declare, declaredPrefix_declaring]
    simp only
    have hvalue : (declaring p).2 = p.1 := rfl
    rw [hvalue, if_pos hp]
    exact hnext

section Good

variable {ps qs : Prefixes} {bindings : Bindings} {tag : Tag}

/-- Good prefixes can be declared. -/
theorem Prefixes.Good.isDeclarable (hps : ps.Good) {p : String × String} (hp : p ∈ ps) :
    isDeclarable p.2.toList p.1 = true := by
  obtain ⟨hspace, hxml⟩ := hps.spaces p hp
  obtain ⟨-, hne, hxmlns⟩ := hps.mark hp
  have hmarks : ∀ other : String, p.2 ≠ other → (p.2.toList == other.toList) = false := by
    intro other hother
    exact beq_eq_false_iff_ne.2 fun h => hother (String.toList_inj.1 h)
  simp only [Xml.isDeclarable, bne, hmarks _ hxmlns, hmarks _ hne, beq_eq_false_iff_ne.2 hxml,
    beq_eq_false_iff_ne.2 hspace.declares, beq_eq_false_iff_ne.2 hspace.filled]
  simpa using hspace.closing

/-- Prefixes hide no default namespace. -/
theorem default_declaring (hps : ps.Good) (hqs : ∀ p ∈ qs, p ∈ ps) :
    (bindings.declaring qs).default? = bindings.default? := by
  have hnone : (qs.map fun p => (p.2.toList, p.1)).reverse.lookup [] = none := by
    rw [List.lookup_eq_none_iff]
    intro b hb
    rw [List.mem_reverse] at hb
    obtain ⟨p, hp, rfl⟩ := List.mem_map.1 hb
    have hname := (hps.mark (hqs p hp)).1
    rw [bne_iff_ne]
    intro hempty
    have hempty : [] = p.2.toList := hempty
    rw [← hempty] at hname
    cases hname
  rw [Bindings.default?, Bindings.declaring, List.lookup_append, hnone]
  rfl

/-- An element that declares a table serves it. -/
theorem serves_declaring (hps : ps.Good) (hqs : qs.Perm ps) :
    ps.Serves (bindings.declaring qs) := by
  intro p hp
  have hkeys : (((qs.map fun p => (p.2.toList, p.1)).reverse).map (·.1)).Nodup := by
    rw [List.map_reverse, List.nodup_reverse, List.map_map]
    have hmap : qs.map ((·.1) ∘ fun p => (p.2.toList, p.1)) = (qs.map (·.2)).map String.toList := by
      rw [List.map_map]
      rfl
    rw [hmap]
    exact ((hqs.map _).nodup_iff.2 hps.distinct).map fun a b h => String.toList_inj.1 h
  have hfound := lookup_of_mem hkeys
    (List.mem_reverse.2 (List.mem_map.2 ⟨p, hqs.mem_iff.2 hp, rfl⟩) : (p.2.toList, p.1) ∈ _)
  rw [Bindings.declaring, List.lookup_append, hfound]
  rfl

theorem mapM_map_of_forall {α β : Type} {f : β → Option α} {g : α → β} :
    ∀ {xs : List α}, (∀ a ∈ xs, f (g a) = some a) → (xs.map g).mapM f = some xs
  | [], _ => rfl
  | a :: xs, h => by
    obtain ⟨ha, hrest⟩ := List.forall_mem_cons.1 h
    rw [List.map_cons, List.mapM_cons, ha, mapM_map_of_forall hrest]
    rfl

theorem spelled_append (attributes more : List (String × String)) :
    spelled (attributes ++ more) = spelled attributes ++ spelled more := List.map_append

/-- The attributes of a tag whose names were met are read back, and declare nothing. -/
theorem attributes_read (hps : ps.Good) (hserves : ps.Serves bindings) (htag : tag.Proper)
    (hmet : ps.MetTag tag) :
    ∀ a ∈ tag.attributes, attributeName? bindings (ps.qualify a.1).toList = some a.1 ∧
      declaredPrefix? (ps.qualify a.1).toList = none := by
  intro a ha
  obtain ⟨hproper, hxmlns, -⟩ := htag.attributes a ha
  obtain ⟨-, -, hattribute, hplain⟩ := qualify_read hps hserves hproper (hmet.2 a ha)
  exact ⟨hattribute, hplain hxmlns⟩

/-- Qualified attributes of a tag declare no prefix. -/
theorem plain_qualified
    (hread : ∀ a ∈ tag.attributes, declaredPrefix? (ps.qualify a.1).toList = none) :
    ∀ b ∈ spelled (ps.qualified tag), declaredPrefix? b.1 = none := by
  intro b hb
  obtain ⟨c, hc, rfl⟩ := List.mem_map.1 hb
  obtain ⟨a, ha, rfl⟩ := List.mem_map.1 hc
  exact hread a ha

/-- The declarations of prefixes declare prefixes. -/
theorem declares_spelled_declaring {b : List Char × String} (hb : b ∈ spelled (qs.map declaring)) :
    (declaredPrefix? b.1).isSome = true := by
  obtain ⟨c, hc, rfl⟩ := List.mem_map.1 hb
  obtain ⟨p, -, rfl⟩ := List.mem_map.1 hc
  rw [declaredPrefix_declaring]
  rfl

/-- The names in a written tag differ: those of attributes because they are read back as different
ones, and those of declarations because they declare. -/
theorem nodup_written (hdistinct : (qs.map (·.2)).Nodup) (htag : tag.Proper)
    (hread : ∀ a ∈ tag.attributes, attributeName? bindings (ps.qualify a.1).toList = some a.1 ∧
      declaredPrefix? (ps.qualify a.1).toList = none) :
    ((spelled (qs.map declaring ++ ps.qualified tag)).map (·.1)).Nodup := by
  rw [spelled_append, List.map_append, List.nodup_append]
  refine ⟨?_, ?_, ?_⟩
  · have hmap : (spelled (qs.map declaring)).map (·.1) =
        (qs.map (·.2)).map fun mark => ("xmlns:" ++ mark).toList := by
      simp [spelled, declaring]
    rw [hmap]
    refine hdistinct.map fun m n h => String.toList_inj.1 ?_
    simpa using h
  · have hmap : (spelled (ps.qualified tag)).map (·.1) =
        (tag.attributes.map (·.1)).map fun n => (ps.qualify n).toList := by
      simp [spelled, Prefixes.qualified]
    rw [hmap]
    refine htag.distinct.map_on fun m hm n hn h => ?_
    obtain ⟨a, ha, rfl⟩ := List.mem_map.1 hm
    obtain ⟨b, hb, rfl⟩ := List.mem_map.1 hn
    have hsame := (hread a ha).1
    rw [h, (hread b hb).1] at hsame
    exact (Option.some.inj hsame).symm
  · rintro name hdeclared _ hattribute rfl
    obtain ⟨b, hb, rfl⟩ := List.mem_map.1 hdeclared
    obtain ⟨d, hd, hname⟩ := List.mem_map.1 hattribute
    have hsome := declares_spelled_declaring hb
    rw [← hname, plain_qualified (fun a ha => (hread a ha).2) d hd] at hsome
    cases hsome

/-- A written tag is read back inside bindings that serve its prefixes; an element without a
namespace is in the default one. -/
theorem resolveTag_written (hps : ps.Good) (hqs : ∀ p ∈ qs, p ∈ ps)
    (hdistinct : (qs.map (·.2)).Nodup) (hserves : ps.Serves (bindings.declaring qs))
    (htag : tag.Proper) (hmet : ps.MetTag tag) :
    resolveTag bindings (ps.qualify tag.name).toList
      (spelled (qs.map declaring ++ ps.qualified tag)) =
      some (⟨tag.name.adopt bindings.default?, tag.attributes⟩, bindings.declaring qs) := by
  have hread := attributes_read hps hserves htag hmet
  have hplain := plain_qualified fun a ha => (hread a ha).2
  have hdeclare : declare bindings (spelled (qs.map declaring ++ ps.qualified tag)) =
      some (bindings.declaring qs) := by
    rw [spelled_append]
    exact declare_declaring (fun p hp => hps.isDeclarable (hqs p hp)) hplain bindings
  have hown : (spelled (qs.map declaring ++ ps.qualified tag)).filter
      (fun a => (declaredPrefix? a.1).isNone) = spelled (ps.qualified tag) := by
    rw [spelled_append, List.filter_append, List.filter_eq_nil_iff.2, List.nil_append,
      List.filter_eq_self.2]
    · exact fun b hb => Option.isNone_iff_eq_none.2 (hplain b hb)
    · intro b hb
      rw [Option.isNone_iff_eq_none, ← Option.not_isSome_iff_eq_none, not_not]
      exact declares_spelled_declaring hb
  have hresolved : (spelled (ps.qualified tag)).mapM
      (fun a => (attributeName? (bindings.declaring qs) a.1).map fun m => (m, a.2)) =
        some tag.attributes := by
    rw [spelled, Prefixes.qualified, List.map_map]
    refine mapM_map_of_forall fun a ha => ?_
    simp only [Function.comp_apply, (hread a ha).1]
    rfl
  have hraw := allDistinct_iff.2 (nodup_written hdistinct htag hread)
  have hnames : allDistinct (tag.attributes.map (·.1)) = true := allDistinct_iff.2 htag.distinct
  obtain ⟨-, helement, -, -⟩ := qualify_read hps hserves htag.name hmet.1
  rw [default_declaring hps hqs] at helement
  unfold resolveTag
  simp only [hdeclare, Option.bind_eq_bind, Option.bind_some, hown]
  rw [hresolved, Option.bind_some, hraw, hnames, helement]
  rfl

end Good

end Wadl.Xml
