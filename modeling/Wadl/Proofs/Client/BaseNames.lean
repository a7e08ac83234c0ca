import Wadl.Proofs.Client.TypeNames

/-!
# Types that keep their base names

A group without exactly one identifier has a base name: its identifiers, or the least name that a
place of use makes. This is no reserved word (`baseName_notMem_reservedWords`), so that the type has
it as its name if it is free in its scope and no other group of the scope has it (`BaseNamesFree`,
`unify_baseNames`). The places of use count as a set (`least_congr`).
-/

namespace Wadl

open Unify

/-! ## The least of some texts -/

theorem least_eq_none {xs : List String} : least xs = none ↔ xs = [] := by
  cases xs with
  | nil => exact ⟨fun _ => rfl, fun _ => rfl⟩
  | cons x xs =>
    rw [least]
    split <;> simp

theorem least_le {s t : String} {xs : List String} (h : least xs = some s) (ht : t ∈ xs) :
    (compare s t).isLE = true := by
  induction xs generalizing s with
  | nil => cases ht
  | cons x xs ih =>
    rw [least] at h
    cases hrest : least xs with
    | none =>
      rw [hrest] at h
      rw [least_eq_none.1 hrest, List.mem_singleton] at ht
      rw [← Option.some.inj h, ht]
      exact Std.ReflCmp.isLE_rfl
    | some y =>
      rw [hrest] at h
      simp only [Option.some.injEq] at h
      split at h
      · rename_i hlt
        rcases List.mem_cons.1 ht with rfl | ht
        · exact h ▸ Ordering.isLE_of_eq_lt (by simpa using hlt)
        · exact ih (h ▸ hrest) ht
      · rename_i hge
        have hxy : (compare x y).isLE = true := by
          have hswap : compare x y = (compare y x).swap := Std.OrientedCmp.eq_swap
          rw [hswap]
          cases hcase : compare y x <;> simp_all
        rw [← h]
        rcases List.mem_cons.1 ht with rfl | ht
        · exact Std.ReflCmp.isLE_rfl
        · exact Std.TransCmp.isLE_trans hxy (ih hrest ht)

/-- The least of some texts depends on what is in the list only. -/
theorem least_congr {xs ys : List String} (h : ∀ x, x ∈ xs ↔ x ∈ ys) : least xs = least ys := by
  cases hx : least xs with
  | none =>
    rw [least_eq_none] at hx
    rw [eq_comm, least_eq_none, List.eq_nil_iff_forall_not_mem]
    exact fun y hy => by simpa [hx] using (h y).2 hy
  | some s =>
    cases hy : least ys with
    | none =>
      rw [least_eq_none] at hy
      have hs := (h s).1 (least_mem hx)
      rw [hy] at hs
      cases hs
    | some t =>
      have hst := least_le hx ((h t).2 (least_mem hy))
      have hts := least_le hy ((h s).1 (least_mem hx))
      rw [Std.LawfulEqCmp.eq_of_compare (Std.OrientedCmp.isLE_antisymm hst hts)]

/-! ## Base names are not reserved -/

namespace Naming

open CharClass

theorem mem_runs {c : Char} {word cs : List Char}
    (h : c ∈ word ∨ c ∈ cs ∧ isAsciiAlphanumeric c = true) : ∃ w ∈ Words.runs word cs, c ∈ w := by
  induction cs generalizing word with
  | nil =>
    have hc : c ∈ word := h.resolve_right (by simp)
    rw [Words.runs, if_neg (by simpa using List.ne_nil_of_mem hc)]
    exact ⟨word.reverse, List.mem_singleton_self _, List.mem_reverse.2 hc⟩
  | cons d cs ih =>
    rw [Words.runs]
    split
    · apply ih
      rcases h with h | ⟨h, halnum⟩
      · exact .inl (List.mem_cons_of_mem d h)
      · rcases List.mem_cons.1 h with rfl | h
        · exact .inl List.mem_cons_self
        · exact .inr ⟨h, halnum⟩
    · rename_i hd
      have hrest : c ∈ word ∨ c ∈ cs ∧ isAsciiAlphanumeric c = true := by
        refine h.imp_right fun hc => ⟨(List.mem_cons.1 hc.1).resolve_left ?_, hc.2⟩
        rintro rfl
        exact hd hc.2
      split
      · rename_i hempty
        rw [List.isEmpty_iff.1 hempty] at hrest
        exact ih hrest
      · rcases hrest with hc | hc
        · exact ⟨word.reverse, List.mem_cons_self, List.mem_reverse.2 hc⟩
        · obtain ⟨w, hw, hcw⟩ := ih (.inr hc)
          exact ⟨w, List.mem_cons_of_mem _ hw, hcw⟩

theorem mem_lead {c first : Char} {cs : List Char} (h : c ∈ cs) : c ∈ lead first cs := by
  cases cs with
  | nil => cases h
  | cons d ds =>
    rw [lead]
    split
    · exact List.mem_cons_of_mem first h
    · exact h

end Naming

/-- A letter or a digit of a text is in the name that its words make, as a capital or as a small
letter. -/
theorem mem_pascal {c : Char} {text : String} (hc : c ∈ text.toList)
    (h : CharClass.isAsciiAlphanumeric c = true) :
    Naming.upperChar c ∈ (pascal text).toList ∨ Naming.lowerChar c ∈ (pascal text).toList := by
  obtain ⟨w, hw, hcw⟩ : ∃ w ∈ Words.split text.toList, c ∈ w :=
    Naming.mem_runs (.inr ⟨Naming.mem_partHumps (Naming.mem_partCapitals (.inr hc)), h⟩)
  have hword : ∀ d ∈ Naming.capitalized w, d ∈ (pascal text).toList := by
    intro d hd
    rw [pascal, String.toList_ofList]
    exact Naming.mem_lead (List.mem_flatten.2 ⟨_, List.mem_map_of_mem hw, hd⟩)
  cases w with
  | nil => cases hcw
  | cons d ds =>
    rcases List.mem_cons.1 hcw with rfl | hcw
    · exact .inl (hword _ List.mem_cons_self)
    · exact .inr (hword _ (List.mem_cons_of_mem _ (List.mem_map_of_mem hcw)))

/-- No reserved word that begins with a capital has one of the letters `p` and `q` in it, and none
at all a capital `O`. -/
theorem reservedWords_lack {word : String} (h : word ∈ reservedWords) :
    (word.toList.head?.any CharClass.isAsciiUpper = true →
      ∀ c ∈ ['p', 'P', 'q', 'Q'], c ∉ word.toList) ∧ 'O' ∉ word.toList := by
  have hcheck : ∀ word ∈ reservedWords, (word.toList.head?.any CharClass.isAsciiUpper = true →
      ['p', 'P', 'q', 'Q'].all (! word.toList.contains ·) = true) ∧ 'O' ∉ word.toList := by decide
  obtain ⟨hletters, hcapital⟩ := hcheck word h
  refine ⟨fun hupper c hc => ?_, hcapital⟩
  simpa using List.all_eq_true.1 (hletters hupper) c hc

theorem site_notMem_reservedWords (u : Usage) : u.site ∉ reservedWords := by
  intro hmem
  obtain ⟨hplain, -⟩ := reservedWords_lack hmem
  obtain ⟨first, rest, hname, hupper, -⟩ := capital_site u
  obtain ⟨c, hc, hletter, hcapital, hsmall⟩ : ∃ c, c ∈ u.role.word.toList ∧
      CharClass.isAsciiAlphanumeric c = true ∧ Naming.upperChar c ∈ ['p', 'P', 'q', 'Q'] ∧
      Naming.lowerChar c ∈ ['p', 'P', 'q', 'Q'] := by
    cases u.role with
    | request => exact ⟨'q', by decide, by decide, by decide, by decide⟩
    | response => exact ⟨'p', by decide, by decide, by decide, by decide⟩
  have htext : c ∈ (" ".intercalate
      (u.container.here.segments ++ [u.method.value.label, u.role.word])).toList := by
    rw [String.toList_intercalate]
    exact mem_intercalate_of_mem hc (List.mem_map_of_mem (by simp))
  have hnone := hplain (by rw [hname]; exact hupper)
  rcases mem_pascal htext hletter with hc | hc
  · exact hnone _ hcapital hc
  · exact hnone _ hsmall hc

theorem sites_notMem_reservedWords {r : Resolution} {groups : Groups}
    (h : groupsOf r = .ok groups) : ∀ g ∈ groups, ∀ s ∈ g.sites, s ∉ reservedWords := by
  refine groupsOf_keeps (P :=
    fun g => ∀ s ∈ g.sites, s ∉ reservedWords) (by simp) (fun g rep hg => hg) ?_ h
  intro us u g _ _ hg
  exact List.forall_mem_append.2 ⟨hg, List.forall_mem_singleton.2 (site_notMem_reservedWords u)⟩

/-- No base name is a reserved word. -/
theorem baseName_notMem_reservedWords {g : Group} (hsites : ∀ s ∈ g.sites, s ∉ reservedWords)
    (hother : g.isDeclared = false) : g.baseName ∉ reservedWords := by
  unfold Group.baseName
  split
  · cases hleast : least g.sites with
    | none => decide
    | some s => exact hsites s (least_mem hleast)
  · rename_i ids hne
    rcases hids : g.ids with _ | ⟨id, _ | ⟨id', rest⟩⟩
    · exact absurd hids hne
    · rw [isDeclared_iff.2 ⟨id, hids⟩] at hother
      cases hother
    · refine fun hmem => (reservedWords_lack hmem).2 ?_
      rw [String.toList_intercalate, List.map_cons, List.map_cons, List.map_cons, List.map_cons,
        List.intercalate_cons_cons]
      exact List.mem_append_left _ (List.mem_append_right _ (by decide))

/-! ## Names that are free -/

/-- A name that is neither reserved nor taken is given as it is. -/
theorem NameScope.claimUnique_free {s : NameScope} {name : String} (hreserved : name ∉ s.reserved)
    (hfree : name ∉ s.taken) (source : String) : (s.claimUnique name source).1 = name := by
  have hescaped : s.escaped name = name := by
    rw [escaped, if_neg (by simpa using hreserved)]
  have hfirst : s.firstFree name (s.names.length + 1) 1 = 1 := by
    rw [firstFree, if_neg]
    exact fun htaken => hfree (contains_iff.1 htaken)
  rw [claimUnique]
  simp only [hescaped, hfirst]
  rfl

/-- The place of the class whose scope names the type of a group, if it does not stand in the
module. -/
def Unify.Group.scope? (g : Group) (config : ClientConfig) : Option Place :=
  (g.owner? config).map (·.place)

/-- Groups without exactly one identifier have base names of their own in each scope, and those of
the module are free in `scope`. -/
structure BaseNamesFree (config : ClientConfig) (scope : NameScope) (groups : Groups) : Prop where
  distinct : ∀ g ∈ groups, ∀ g' ∈ groups, g.isDeclared = false → g'.isDeclared = false →
    g.scope? config = g'.scope? config → g.baseName = g'.baseName → g.signature = g'.signature
  free : ∀ g ∈ groups, g.isDeclared = false → g.scope? config = none → g.baseName ∉ scope.taken

instance (config : ClientConfig) (scope : NameScope) (groups : Groups) :
    Decidable (BaseNamesFree config scope groups) :=
  decidable_of_iff (_ ∧ _) ⟨fun h => ⟨h.1, h.2⟩, fun h => ⟨h.distinct, h.free⟩⟩

theorem BaseNamesFree.tail {config : ClientConfig} {scope : NameScope} {g : Group} {rest : Groups}
    (h : BaseNamesFree config scope (g :: rest)) : BaseNamesFree config scope rest where
  distinct x hx y hy := h.distinct x (List.mem_cons_of_mem g hx) y (List.mem_cons_of_mem g hy)
  free x hx := h.free x (List.mem_cons_of_mem g hx)

section nameOthers

variable {config : ClientConfig} {g : Group} {rest : Groups} {scope : NameScope}
    {classes : ClassScopes}

/-- The base name of a group is not that of a later one in the same scope. -/
theorem BaseNamesFree.ne_of_mem (h : BaseNamesFree config scope (g :: rest))
    (hnodup : ((g :: rest).map (·.signature)).Nodup) (hother : g.isDeclared = false)
    {g' : Group} (hg' : g' ∈ rest) (hother' : g'.isDeclared = false)
    (hscope : g.scope? config = g'.scope? config) : g'.baseName ≠ g.baseName := by
  intro heq
  have hsignature :=
    h.distinct g List.mem_cons_self g' (List.mem_cons_of_mem g hg') hother hother' hscope heq.symm
  rw [List.map_cons, List.nodup_cons] at hnodup
  exact hnodup.1 (hsignature ▸ List.mem_map_of_mem hg')

/-- The base names of groups that belong to a place are free in a scope. -/
structure FreeIn (config : ClientConfig) (place : Option Place) (s : NameScope) (groups : Groups) :
    Prop where
  reserved : s.reserved = reservedWords
  free : ∀ g ∈ groups, g.isDeclared = false → g.scope? config = place → g.baseName ∉ s.taken

theorem FreeIn.tail {place : Option Place} {s : NameScope} (h : FreeIn config place s (g :: rest)) :
    FreeIn config place s rest := ⟨h.reserved, fun x hx => h.free x (List.mem_cons_of_mem g hx)⟩

/-- A group takes its base name where it is free, and leaves those of the later groups free. -/
theorem FreeIn.claimUnique {place : Option Place} {s : NameScope}
    (h : FreeIn config place s (g :: rest)) (hfree : BaseNamesFree config scope (g :: rest))
    (hnodup : ((g :: rest).map (·.signature)).Nodup) (hother : g.isDeclared = false)
    (hbase : g.baseName ∉ reservedWords) (hplace : g.scope? config = place) (source : String) :
    (s.claimUnique g.baseName source).1 = g.baseName ∧
      FreeIn config place (s.claimUnique g.baseName source).2 rest := by
  have hname : (s.claimUnique g.baseName source).1 = g.baseName :=
    NameScope.claimUnique_free (h.reserved ▸ hbase)
      (h.free g List.mem_cons_self hother hplace) source
  obtain ⟨htakes, -⟩ := s.claimUnique_takes g.baseName source
  refine ⟨hname, htakes.reserved.trans h.reserved, fun x hx hxother hxplace htaken => ?_⟩
  rcases (htakes.mem_taken _).1 htaken with hsame | hold
  · rw [List.mem_singleton, hname] at hsame
    exact hfree.ne_of_mem hnodup hother hx hxother (hplace.trans hxplace.symm) hsame
  · exact h.tail.free x hx hxother hxplace hold

/-- In a class of which nothing is known yet all base names are free. -/
theorem freeIn_getD {groups : Groups} {place : Place}
    (hclasses : ∀ inner, classes.lookup place = some inner →
      FreeIn config (some place) inner groups) (label : String) (escapes : Bool) :
    FreeIn config (some place) ((classes.lookup place).getD { label, escapes }) groups := by
  cases hlookup : classes.lookup place with
  | none => exact ⟨rfl, fun _ _ _ _ => List.not_mem_nil⟩
  | some known => exact hclasses known hlookup

/-- Where one class has another scope, base names stay free in all classes. -/
theorem freeIn_of_lookup_cons {groups : Groups} {place : Place} {inner : NameScope}
    (hinner : FreeIn config (some place) inner groups)
    (hclasses : ∀ place inner, classes.lookup place = some inner →
      FreeIn config (some place) inner groups) :
    ∀ place' known, ((place, inner) :: classes).lookup place' = some known →
      FreeIn config (some place') known groups := by
  intro place' known hknown
  rw [List.lookup_cons] at hknown
  split at hknown
  · rename_i hsame
    obtain rfl := eq_of_beq hsame
    obtain rfl := Option.some.inj hknown
    exact hinner
  · exact hclasses place' known hknown

/-- Groups whose base names are free take them. -/
theorem nameOthers_free {groups : Groups} (hnodup : (groups.map (·.signature)).Nodup)
    (hbase : ∀ g ∈ groups, g.isDeclared = false → g.baseName ∉ reservedWords)
    (hreserved : scope.reserved = reservedWords) (hfree : BaseNamesFree config scope groups)
    (hclasses : ∀ place inner, classes.lookup place = some inner →
      FreeIn config (some place) inner groups) :
    (nameOthers config scope classes groups).2 =
      (groups.filter (!·.isDeclared)).map fun g => (g.signature, g.baseName) := by
  induction groups generalizing scope classes with
  | nil => rfl
  | cons g rest ih =>
    have hnodup' : (rest.map (·.signature)).Nodup := (List.nodup_cons.1 hnodup).2
    obtain ⟨hg, hrest⟩ := List.forall_mem_cons.1 hbase
    have hclasses' : ∀ place inner, classes.lookup place = some inner →
        FreeIn config (some place) inner rest :=
      fun place inner hinner => (hclasses place inner hinner).tail
    rw [nameOthers]
    split
    · rename_i id hid
      rw [List.filter_cons_of_neg (by simp [isDeclared_iff.2 ⟨id, hid⟩])]
      exact ih hnodup' hrest hreserved hfree.tail hclasses'
    · rename_i hids
      have hother : g.isDeclared = false := by
        rw [← Bool.not_eq_true, isDeclared_iff]
        rintro ⟨id, hid⟩
        exact hids id hid
      rw [List.filter_cons_of_pos (by simp [hother]), List.map_cons]
      let source := "representations used by " ++ g.baseName
      split
      · -- the name is taken in the class
        rename_i owner howner
        have hplace : g.scope? config = some owner.place := by rw [Group.scope?, howner]; rfl
        have hinner :=
          freeIn_getD (hclasses owner.place) ("class " ++ owner.name) config.escapeReserved
        obtain ⟨hname, hafter⟩ := hinner.claimUnique hfree hnodup hother (hg hother) hplace source
        exact congrArg₂ List.cons (Prod.ext rfl hname)
          (ih hnodup' hrest hreserved hfree.tail (freeIn_of_lookup_cons hafter hclasses'))
      · -- the name is taken in the module
        rename_i howner
        have hplace : g.scope? config = none := by rw [Group.scope?, howner]; rfl
        obtain ⟨hname, hafter⟩ :=
          FreeIn.claimUnique ⟨hreserved, hfree.free⟩ hfree hnodup hother (hg hother) hplace source
        exact congrArg₂ List.cons (Prod.ext rfl hname)
          (ih hnodup' hrest hafter.reserved ⟨hfree.tail.distinct, hafter.free⟩ hclasses')

end nameOthers

/-- In each scope the base names of the groups without exactly one identifier differ, and those of
the module are free when the other groups have their names. -/
def Resolution.BaseNamesFree (r : Resolution) (config : ClientConfig) : Prop :=
  ∀ groups scope declared, groupsOf r = .ok groups →
    nameDeclared (moduleScope config) groups = .ok (scope, declared) →
    Wadl.BaseNamesFree config scope groups

instance (r : Resolution) (config : ClientConfig) : Decidable (r.BaseNamesFree config) :=
  decidable_of_iff
    (∀ groups ∈ (groupsOf r).toOption, ∀ x ∈ (nameDeclared (moduleScope config) groups).toOption,
    Wadl.BaseNamesFree config x.1 groups) <| by
    constructor
    · intro h groups scope declared hgroups hdeclared
      exact h groups (Result.toOption_ok.2 hgroups) (scope, declared)
        (Result.toOption_ok.2 hdeclared)
    · intro h groups hgroups x hx
      exact h groups x.1 x.2 (Result.toOption_ok.1 hgroups) (Result.toOption_ok.1 hx)

/-- Types whose groups have free base names have these as names. -/
theorem unify_baseNames {r : Resolution} {config : ClientConfig}
    {table : TypeTable} {groups : Groups} (h : Yields (unify r config) table)
    (hfree : r.BaseNamesFree config) (hgroups : groupsOf r = .ok groups) {c : CanonicalType}
    {g : Group} (hc : c ∈ table.types) (hg : g ∈ groups) (hsignature : c.signature = g.signature)
    (hother : g.isDeclared = false) : c.name = g.baseName := by
  obtain ⟨groups', scope, names, hgroups', hdeclared, htypes⟩ := unify_named h
  obtain rfl := Except.ok.inj (hgroups.symm.trans hgroups')
  obtain ⟨visited, -, hgrouped⟩ := grouped_groupsOf hgroups
  have hbase : ∀ g ∈ groups, g.isDeclared = false → g.baseName ∉ reservedWords := fun g hg =>
    baseName_notMem_reservedWords (sites_notMem_reservedWords hgroups g hg)
  have hbaseFree := hfree groups scope names hgroups hdeclared
  obtain ⟨declared, rfl, hdeclaredGroups, htakes, -⟩ :=
    nameDeclared_ok (moduleScope_reserved config) hdeclared
  have hothers : (nameOthers config scope [] groups).2 =
      (groups.filter (!·.isDeclared)).map fun g => (g.signature, g.baseName) :=
    nameOthers_free hgrouped.nodup hbase (htakes.reserved.trans (moduleScope_reserved config))
      hbaseFree fun place inner hinner => by cases hinner
  let others := (groups.filter (!·.isDeclared)).map fun g => (g, g.baseName)
  have hsigned : signed others = (nameOthers config scope [] groups).2 := by
    rw [hothers, signed, List.map_map]
    rfl
  rw [← hsigned] at htypes
  have hnamed : TypesNamed config groups (declared ++ others) table.types :=
    typesNamed_of_forall₂ hgrouped.nodup hdeclaredGroups
      (by rw [List.map_map]; exact List.map_id _) htypes
  obtain ⟨g', hg', -, hsignature', -⟩ := hnamed.mem_named hc
  have hsame : ∀ x ∈ groups, x.signature = c.signature → x = g := fun x hx heq =>
    List.inj_on_of_nodup_map hgrouped.nodup hx hg (heq.trans hsignature)
  rcases List.mem_append.1 hg' with hg' | hg'
  · have hmem : g' ∈ groups.filter (·.isDeclared) :=
      hdeclaredGroups ▸ List.mem_map_of_mem (f := (·.1)) hg'
    obtain ⟨hmem, hdeclared'⟩ := List.mem_filter.1 hmem
    rw [hsame g' hmem hsignature'.symm, hother] at hdeclared'
    cases hdeclared'
  · obtain ⟨x, hx, heq⟩ := List.mem_map.1 hg'
    obtain ⟨rfl, hname⟩ := Prod.mk.inj heq
    rw [← hname, hsame x (List.mem_filter.1 hx).1 hsignature'.symm]

end Wadl
