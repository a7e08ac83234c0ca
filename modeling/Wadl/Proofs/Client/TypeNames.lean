import Wadl.Proofs.Client.Unification
import Wadl.Proofs.Naming.Style

/-!
# The names of types and enums

Types whose representations have one identifier are named after it before any other type has a name
(`nameDeclared_ok`); the others follow, in the module or in a class (`nameOthers_spec`), and then
the enums (`collectEnums_takes`). All names of the module are given by one scope, one after another,
so that they differ (`unify_names`), and all names begin with a capital. Identifiers count as sets
(`sortedDistinct_congr`, `ids_congr`).
-/

namespace Wadl

open Unify

/-! ## Names from where types are used -/

/-- Each site is a name with a capital. -/
theorem capital_site (u : Usage) : Capital u.site := by
  obtain ⟨word, c, hword, hc, hletter⟩ : ∃ word : String, ∃ c,
      word = u.role.word ∧ c ∈ word.toList ∧ CharClass.isAsciiAlphanumeric c = true := by
    cases u.role with
    | request => exact ⟨_, 'R', rfl, by decide, by decide⟩
    | response => exact ⟨_, 'R', rfl, by decide, by decide⟩
  refine capital_pascal (pascal_ne_empty (c := c) ?_ hletter)
  rw [String.toList_intercalate]
  exact mem_intercalate_of_mem hc (List.mem_map_of_mem (by simp [hword]))

theorem Station.capital_name (s : Station) : Capital s.name := by
  unfold Station.name
  simp only
  split
  · exact capital_of_check (by decide) (by decide)
  · rename_i h
    exact capital_pascal (by simpa using h)

/-- The least of several names is one of them. -/
theorem least_mem {s : String} : ∀ {xs : List String}, least xs = some s → s ∈ xs
  | [], h => by cases h
  | x :: xs, h => by
    rw [least] at h
    cases hrest : least xs with
    | none =>
      rw [hrest] at h
      exact Option.some.inj h ▸ List.mem_cons_self
    | some t =>
      rw [hrest] at h
      simp only [Option.some.injEq] at h
      split at h
      · exact List.mem_cons_of_mem x (h ▸ least_mem hrest)
      · exact h ▸ List.mem_cons_self

/-! ## What holds of groups -/

/-- What holds of new groups, and of a group with one more member or one more usage if it holds of
the group, holds of all groups. -/
theorem groupsOf_keeps {r : Resolution} {groups : Groups} {P : Group → Prop}
    (new : ∀ signature rep, P ⟨signature, [rep], [], [], []⟩)
    (join : ∀ g rep, P g → P { g with members := g.members ++ [rep] })
    (use : ∀ us u g, r.usages = .ok us → u ∈ us → P g → P (g.use u))
    (h : groupsOf r = .ok groups) : ∀ g ∈ groups, P g := by
  have hadd : ∀ {groups groups' : Groups} {rep : Placed Representation} {signature : Option String},
      (∀ g ∈ groups, P g) → Unify.add r groups rep = .ok (groups', signature) →
        ∀ g ∈ groups', P g := by
    intro groups groups' rep signature hgroups h
    cases added_of_ok h with
    | skip => exact hgroups
    | known => exact hgroups
    | join =>
      refine List.forall_mem_map.2 fun g hg => ?_
      split
      · exact join g rep (hgroups g hg)
      · exact hgroups g hg
    | new => exact List.forall_mem_append.2 ⟨hgroups, List.forall_mem_singleton.2 (new _ rep)⟩
  obtain ⟨_, _, -, -, hall⟩ := groupsOf_induct (P := fun _ _ groups => ∀ g ∈ groups, P g) (by simp)
    (fun _ hgroups hstep => hadd hgroups hstep)
      (fun {us u _ _ groups groups'} hus hu hgroups hstep => by
      obtain ⟨⟨added, signature⟩, hstep', hstep⟩ := Result.bind_ok.1 hstep
      have hadded := hadd hgroups hstep'
      simp only at hstep
      split at hstep
      · rwa [← Result.pure_ok.1 hstep]
      · rw [← Result.pure_ok.1 hstep]
        refine List.forall_mem_map.2 fun g hg => ?_
        split
        · exact use us u g hus hu (hadded g hg)
        · exact hadded g hg) h
  exact hall

/-- All sites of a group are names with capitals. -/
theorem capital_of_mem_sites {r : Resolution} {groups : Groups} (h : groupsOf r = .ok groups) :
    ∀ g ∈ groups, ∀ s ∈ g.sites, Capital s := by
  refine groupsOf_keeps (P := fun g => ∀ s ∈ g.sites, Capital s) (by simp) (fun g rep hg => hg) ?_ h
  intro us u g _ _ hg
  exact List.forall_mem_append.2 ⟨hg, List.forall_mem_singleton.2 (capital_site u)⟩

/-- The names of two identifiers and more, with `Or` between them. -/
theorem capital_joined (id id' : String) (rest : List String) :
    Capital ("Or".intercalate ((id :: id' :: rest).map pascal)) := by
  refine capital_of_first ?_ fun c hc => ?_
  · rw [String.toList_intercalate, List.map_cons, List.map_cons, List.map_cons, List.map_cons,
      List.intercalate_cons_cons]
    by_cases hempty : pascal id = ""
    · rw [hempty]
      rfl
    · obtain ⟨c, cs, hname, hc, -⟩ := capital_pascal hempty
      rw [hname]
      exact hc
  · rw [String.toList_intercalate] at hc
    rcases mem_intercalate hc with hc | ⟨x, hx, hc⟩
    · have hor : Capital "Or" := capital_of_check (by decide) (by decide)
      exact hor.isNameChar c hc
    · obtain ⟨name, hname, rfl⟩ := List.mem_map.1 hx
      obtain ⟨i, -, rfl⟩ := List.mem_map.1 hname
      exact isNameChar_pascal i c hc

/-- The name that a group without exactly one identifier should have begins with a capital. -/
theorem capital_baseName {g : Group} (hsites : ∀ s ∈ g.sites, Capital s)
    (hids : ∀ id, g.ids ≠ [id]) : Capital g.baseName := by
  unfold Group.baseName
  split
  · cases hleast : least g.sites with
    | none => exact capital_of_check (by decide) (by decide)
    | some s => exact hsites s (least_mem hleast)
  · rename_i ids hne
    match hids' : g.ids with
    | [] => exact absurd hids' hne
    | [id] => exact absurd hids' (hids id)
    | id :: id' :: rest => exact capital_joined id id' rest

/-! ## Names of groups -/

/-- Whether the representations of a group have exactly one identifier. -/
def Unify.Group.isDeclared (g : Group) : Bool := g.ids.length == 1

/-- Named groups as a table from their signatures. -/
def signed (named : List (Group × String)) : List (String × String) :=
  named.map fun x => (x.1.signature, x.2)

/-- The names of the groups whose types do not stand in a class. -/
def moduleNames (config : ClientConfig) (named : List (Group × String)) : List String :=
  (named.filter fun x => (x.1.owner? config).isNone).map (·.2)

/-- The names of the groups whose types stand in the class of a container. -/
def nestedNames (config : ClientConfig) (place : Place) (named : List (Group × String)) :
    List String :=
  (named.filter fun x => (x.1.owner? config).any (·.place = place)).map (·.2)

/-- A group that is named after its only identifier; a reserved word gets an underscore, if the
settings let it. -/
def NamedById (escapes : Bool) (g : Group) (name : String) : Prop :=
  ∃ id, g.ids = [id] ∧ pascal id ≠ "" ∧
    name = (if pascal id ∈ reservedWords then pascal id ++ "_" else pascal id) ∧
    (pascal id ∈ reservedWords → escapes = true)

/-- A group is declared just if its members share a single identifier. -/
theorem isDeclared_iff {g : Group} : g.isDeclared = true ↔ ∃ id, g.ids = [id] := by
  rw [Group.isDeclared, beq_iff_eq, List.length_eq_one_iff]

theorem owner?_of_isDeclared {g : Group} (h : g.isDeclared = true) (config : ClientConfig) :
    g.owner? config = none := by
  obtain ⟨id, hid⟩ := isDeclared_iff.1 h
  unfold Group.owner?
  split
  · rw [hid]
    simp
  · rfl

/-- If naming succeeds, declared groups take their own names, one each. -/
theorem nameDeclared_ok {scope scope' : NameScope} (hreserved : scope.reserved = reservedWords) :
    ∀ {groups : Groups} {names : List (String × String)},
      nameDeclared scope groups = .ok (scope', names) →
      ∃ named, names = signed named ∧ named.map (·.1) = groups.filter (·.isDeclared) ∧
        scope.Takes (named.map (·.2)) scope' ∧
        ∀ x ∈ named, NamedById scope.escapes x.1 x.2 := by
  intro groups
  induction groups generalizing scope with
  | nil =>
    intro names h
    obtain ⟨rfl, rfl⟩ := Prod.mk.inj (Except.ok.inj h)
    exact ⟨[], rfl, rfl, .nil _, by simp⟩
  | cons g rest ih =>
    intro names h
    rw [nameDeclared] at h
    split at h
    · rename_i id hid
      obtain ⟨⟨name, inner⟩, hclaim, h⟩ := Result.bind_ok.1 h
      obtain ⟨⟨last, names'⟩, hrest, h⟩ := Result.bind_ok.1 h
      obtain ⟨rfl, rfl⟩ := Prod.mk.inj (Result.pure_ok.1 h)
      obtain ⟨htakes, hname, hne, hescapes⟩ := NameScope.claim_ok (Result.mapError_ok.1 hclaim)
      obtain ⟨named, rfl, hgroups, htakes', hall⟩ := ih (htakes.reserved.trans hreserved) hrest
      refine ⟨(g, name) :: named, rfl, ?_, htakes.cons htakes', ?_⟩
      · rw [List.filter_cons_of_pos (isDeclared_iff.2 ⟨id, hid⟩), List.map_cons, hgroups]
      · rw [htakes.escapes] at hall
        refine List.forall_mem_cons.2 ⟨⟨id, hid, hne, ?_, hreserved ▸ hescapes⟩, hall⟩
        rw [hname, NameScope.escaped, hreserved]
        simp
    · rename_i hids
      obtain ⟨named, hnames, hgroups, hrest⟩ := ih hreserved h
      refine ⟨named, hnames, ?_, hrest⟩
      rw [List.filter_cons_of_neg, hgroups]
      exact fun hdeclared => (isDeclared_iff.1 hdeclared).elim hids

/-- What the naming of the other groups gives, from the scopes of the module and of the classes. -/
structure NamesOthers (config : ClientConfig) (scope : NameScope) (classes : ClassScopes)
    (groups : Groups) (result : NameScope × List (String × String))
    (named : List (Group × String)) : Prop where
  names_eq : result.2 = signed named
  groups_eq : named.map (·.1) = groups.filter (!·.isDeclared)
  takes : scope.Takes (moduleNames config named) result.1
  nested : ∀ place, (nestedNames config place named).Nodup ∧
    ∀ inner, classes.lookup place = some inner →
      ∀ name ∈ nestedNames config place named, name ∉ inner.taken
  capital : ∀ x ∈ named, Capital x.2
  notReserved : scope.reserved = reservedWords →
    ∀ name ∈ moduleNames config named, name ∉ reservedWords

/-- Making a name unique keeps its capital. -/
theorem Capital.claimUnique {name : String} (h : Capital name) (scope : NameScope)
    (source : String) : Capital (scope.claimUnique name source).1 := by
  obtain ⟨-, k, hk⟩ := scope.claimUnique_takes name source
  rw [hk]
  exact (h.escaped scope).numbered k

/-- A unique name is never a reserved word. -/
theorem claimUnique_notMem {scope : NameScope} (h : scope.reserved = reservedWords)
    (name source : String) : (scope.claimUnique name source).1 ∉ reservedWords := by
  obtain ⟨-, k, hk⟩ := scope.claimUnique_takes name source
  rw [hk]
  exact numbered_notMem (escaped_notMem h name) k

namespace NamesOthers

variable {config : ClientConfig} {scope scope' : NameScope} {classes : ClassScopes} {g : Group}
  {rest : Groups} {result : NameScope × List (String × String)} {named : List (Group × String)}
  {name : String}

/-- A type of the module takes its name in the scope of the module. -/
theorem inModule (hother : g.isDeclared = false) (howner : g.owner? config = none)
    (htakes : scope.Takes [name] scope') (hcapital : Capital name)
    (hreserved : scope.reserved = reservedWords → name ∉ reservedWords)
    (h : NamesOthers config scope' classes rest result named) :
    NamesOthers config scope classes (g :: rest) (result.1, (g.signature, name) :: result.2)
      ((g, name) :: named) := by
  have hmodule : moduleNames config ((g, name) :: named) = name :: moduleNames config named := by
    simp [moduleNames, howner]
  have hnested : ∀ place, nestedNames config place ((g, name) :: named) =
      nestedNames config place named := by
    simp [nestedNames, howner]
  refine ⟨?_, ?_, ?_, fun place => ?_, ?_, fun hscope => ?_⟩
  · rw [h.names_eq]
    rfl
  · rw [List.filter_cons_of_pos (by simp [hother]), List.map_cons, h.groups_eq]
  · rw [hmodule]
    exact htakes.cons h.takes
  · rw [hnested]
    exact h.nested place
  · exact List.forall_mem_cons.2 ⟨hcapital, h.capital⟩
  · rw [hmodule]
    exact List.forall_mem_cons.2 ⟨hreserved hscope, h.notReserved (htakes.reserved.trans hscope)⟩

/-- A type of a class takes its name in the scope of the class. -/
theorem inClass {owner : Owner} {inner inner' : NameScope} (hother : g.isDeclared = false)
    (howner : g.owner? config = some owner)
    (hinner : ∀ known, classes.lookup owner.place = some known → known = inner)
    (htakes : inner.Takes [name] inner') (hcapital : Capital name)
    (h : NamesOthers config scope ((owner.place, inner') :: classes) rest result named) :
    NamesOthers config scope classes (g :: rest) (result.1, (g.signature, name) :: result.2)
      ((g, name) :: named) := by
  have hmodule : moduleNames config ((g, name) :: named) = moduleNames config named := by
    simp [moduleNames, howner]
  refine ⟨?_, ?_, ?_, fun place => ?_, ?_, ?_⟩
  · rw [h.names_eq]
    rfl
  · rw [List.filter_cons_of_pos (by simp [hother]), List.map_cons, h.groups_eq]
  · rw [hmodule]
    exact h.takes
  · obtain ⟨hnodup, hfresh⟩ := h.nested place
    by_cases hplace : owner.place = place
    · have hnested : nestedNames config place ((g, name) :: named) =
          name :: nestedNames config place named := by
        simp [nestedNames, howner, hplace]
      have hrest := hfresh inner' (by simp [hplace])
      rw [hnested]
      refine ⟨List.nodup_cons.2 ⟨fun hmem => ?_, hnodup⟩, fun known hknown => ?_⟩
      · exact hrest name hmem ((htakes.mem_taken name).2 (Or.inl (List.mem_singleton_self name)))
      · obtain rfl := hinner known (hplace ▸ hknown)
        refine List.forall_mem_cons.2 ⟨htakes.fresh name (List.mem_singleton_self name), ?_⟩
        exact fun x hx htaken => hrest x hx ((htakes.mem_taken x).2 (Or.inr htaken))
    · have hnested : nestedNames config place ((g, name) :: named) =
          nestedNames config place named := by
        simp [nestedNames, howner, hplace]
      rw [hnested]
      refine ⟨hnodup, fun known hknown => hfresh known ?_⟩
      rw [List.lookup_cons, beq_eq_false_iff_ne.2 (Ne.symm hplace)]
      exact hknown
  · exact List.forall_mem_cons.2 ⟨hcapital, h.capital⟩
  · rw [hmodule]
    exact h.notReserved

end NamesOthers

/-- The other groups get names of their sites, made unique in the scope of their owner. -/
theorem nameOthers_spec (config : ClientConfig) :
    ∀ {groups : Groups} (scope : NameScope) (classes : ClassScopes),
      (∀ g ∈ groups, ∀ s ∈ g.sites, Capital s) →
      ∃ named, NamesOthers config scope classes groups
        (nameOthers config scope classes groups) named := by
  intro groups
  induction groups with
  | nil =>
    intro scope classes _
    refine ⟨[], rfl, rfl, .nil scope, fun place => ⟨List.nodup_nil, ?_⟩, ?_, ?_⟩ <;>
      simp [nestedNames, moduleNames]
  | cons g rest ih =>
    intro scope classes hsites
    obtain ⟨hg, hrest⟩ := List.forall_mem_cons.1 hsites
    rw [nameOthers]
    split
    · rename_i id hid
      obtain ⟨named, h⟩ := ih scope classes hrest
      refine ⟨named, h.names_eq, ?_, h.takes, h.nested, h.capital, h.notReserved⟩
      rw [List.filter_cons_of_neg (by simp [isDeclared_iff.2 ⟨id, hid⟩]), h.groups_eq]
    · rename_i hids
      have hother : g.isDeclared = false := by
        rw [← Bool.not_eq_true, isDeclared_iff]
        exact fun ⟨id, hid⟩ => hids id hid
      have hbase : Capital g.baseName := capital_baseName hg hids
      let source := "representations used by " ++ g.baseName
      split
      · rename_i owner howner
        let inner := (classes.lookup owner.place).getD
          { label := "class " ++ owner.name, escapes := config.escapeReserved }
        obtain ⟨named, h⟩ := ih scope
          ((owner.place, (inner.claimUnique g.baseName source).2) :: classes) hrest
        refine ⟨_, h.inClass hother howner (fun known hknown => ?_)
          (inner.claimUnique_takes g.baseName source).1 (hbase.claimUnique inner source)⟩
        show known = (classes.lookup owner.place).getD _
        rw [hknown, Option.getD_some]
      · rename_i howner
        obtain ⟨named, h⟩ := ih (scope.claimUnique g.baseName source).2 classes hrest
        exact ⟨_, h.inModule hother howner (scope.claimUnique_takes g.baseName source).1
          (hbase.claimUnique scope source) fun hscope =>
            claimUnique_notMem hscope g.baseName source⟩

/-! ## Names of enums -/

/-- A table with more enums, whose names its scope has given. -/
structure EnumsTaken (t t' : TypeTable) : Prop where
  types : t'.types = t.types
  taken : ∃ more, t'.enums = t.enums ++ more ∧ t.scope.Takes (more.map (·.name)) t'.scope ∧
    ∀ e ∈ more, Capital e.name ∧ (t.scope.reserved = reservedWords → e.name ∉ reservedWords)

/-- Adding an enum takes one more name. -/
theorem enumsTaken_addEnum {t t' t'' : TypeTable} {context : String} {p : Param}
    (hcontext : Capital context) (h : EnumsTaken t t') (hadd : addEnum context t' p = .ok t'') :
    EnumsTaken t t'' := by
  obtain ⟨htypes, more, henums, htakes, hmore⟩ := h
  unfold addEnum at hadd
  split at hadd
  · rw [← Result.pure_ok.1 hadd]
    exact ⟨htypes, more, henums, htakes, hmore⟩
  · obtain ⟨members, -, hadd⟩ := Result.bind_ok.1 hadd
    simp only at hadd
    have hname : Capital (if (pascal p.name).isEmpty = true then "Value" else pascal p.name) := by
      split
      · exact capital_of_check (by decide) (by decide)
      · rename_i hne
        exact capital_pascal (by simpa using hne)
    generalize (if (pascal p.name).isEmpty = true then "Value" else pascal p.name) =
      name at hname hadd
    have hbase : Capital (if t'.scope.contains name = true then context ++ name else name) := by
      split
      · exact hcontext.append hname.isNameChar
      · exact hname
    generalize (if t'.scope.contains name = true then context ++ name else name) =
      base at hbase hadd
    let source := "options of param " ++ quoted p.name
    rw [← Result.pure_ok.1 hadd]
    refine ⟨htypes, more ++ [⟨(t'.scope.claimUnique base source).1, p.name, members⟩], ?_, ?_, ?_⟩
    · rw [henums, List.append_assoc]
    · rw [List.map_append]
      exact htakes.append (t'.scope.claimUnique_takes base source).1
    · refine List.forall_mem_append.2 ⟨hmore, List.forall_mem_singleton.2
        ⟨hbase.claimUnique t'.scope source, fun hscope => ?_⟩⟩
      exact claimUnique_notMem (htakes.reserved.trans hscope) base source

/-- The enums of a table take their names after the types. -/
theorem collectEnums_takes {r : Resolution} {t t' : TypeTable}
    (htypes : ∀ c ∈ t.types, Capital c.name) (h : collectEnums r t = .ok t') : EnumsTaken t t' :=
  collectEnums_keeps (EnumsTaken t) Capital htypes
    (fun c _ => ⟨c.here.capital_name, fun text =>
      c.here.capital_name.append (isNameChar_pascal text)⟩)
    (fun _ hcontext _ _ _ hu hadd => enumsTaken_addEnum hcontext hu hadd)
    ⟨rfl, [], by simp, .nil _, by simp⟩ h

/-! ## Names of types -/

/-- Types that belong to groups and have their names. -/
structure TypesNamed (config : ClientConfig) (groups : Groups) (named : List (Group × String))
    (types : List CanonicalType) : Prop where
  nodup : (groups.map (·.signature)).Nodup
  perm : (named.map (·.1)).Perm groups
  each : List.Forall₂ (fun g c => c.signature = g.signature ∧ c.members = g.members ∧
    c.owner = g.owner? config ∧ c.name = ((signed named).lookup g.signature).getD "") groups types

namespace TypesNamed

variable {config : ClientConfig} {groups : Groups} {named : List (Group × String)}
  {types : List CanonicalType}

/-- Each type is found by its signature. -/
theorem lookup_signed (h : TypesNamed config groups named types)
    {x : Group × String} (hx : x ∈ named) : (signed named).lookup x.1.signature = some x.2 := by
  refine lookup_of_mem ?_ (List.mem_map_of_mem hx)
  have hkeys : (signed named).map (·.1) = (named.map (·.1)).map (·.signature) := by
    rw [signed, List.map_map, List.map_map]
    rfl
  rw [hkeys]
  exact (h.perm.map (·.signature)).nodup_iff.2 h.nodup

/-- Each type has the name of its group. -/
theorem mem_named (h : TypesNamed config groups named types) {c : CanonicalType} (hc : c ∈ types) :
    ∃ g, (g, c.name) ∈ named ∧ c.members = g.members ∧ c.signature = g.signature ∧
      c.owner = g.owner? config := by
  obtain ⟨g, hg, hsignature, hmembers, howner, hname⟩ := exists_left_of_forall₂ h.each hc
  obtain ⟨⟨g', name⟩, hx, rfl⟩ := List.mem_map.1 (h.perm.mem_iff.2 hg)
  rw [h.lookup_signed hx, Option.getD_some] at hname
  exact ⟨g', hname ▸ hx, hmembers, hsignature, howner⟩

/-- The types of some classes have the names of their groups. -/
theorem names_perm (h : TypesNamed config groups named types) (p : Option Owner → Bool) :
    ((named.filter fun x => p (x.1.owner? config)).map (·.2)).Perm
      ((types.filter fun c => p c.owner).map (·.name)) := by
  let nameOf (g : Group) : String := ((signed named).lookup g.signature).getD ""
  have htypes : types.map (fun c => (c.owner, c.name)) =
      groups.map fun g => (g.owner? config, nameOf g) := by
    rw [eq_comm, ← List.forall₂_eq_eq_eq, List.forall₂_map_left_iff, List.forall₂_map_right_iff]
    refine h.each.imp fun g c ⟨_, _, howner, hname⟩ => ?_
    rw [howner, hname]
  have hnamed : named.map (fun x => (x.1.owner? config, x.2)) =
      (named.map (·.1)).map fun g => (g.owner? config, nameOf g) := by
    rw [List.map_map]
    refine List.map_congr_left fun x hx => ?_
    simp only [Function.comp_apply, nameOf, h.lookup_signed hx, Option.getD_some]
  have hperm : (named.map fun x => (x.1.owner? config, x.2)).Perm
      (types.map fun c => (c.owner, c.name)) := by
    rw [htypes, hnamed]
    exact h.perm.map _
  have hfilter := (hperm.filter fun x => p x.1).map (·.2)
  rw [List.filter_map, List.filter_map, List.map_map, List.map_map] at hfilter
  exact hfilter

end TypesNamed

/-! ## Identifiers as sets -/

theorem mem_sortedDistinct {x : String} {xs : List String} : x ∈ sortedDistinct xs ↔ x ∈ xs := by
  rw [sortedDistinct, List.mem_eraseDups, (sorted_perm xs).mem_iff]

/-- Sorted values are strictly sorted once doubles are dropped. -/
theorem pairwise_eraseDups {xs : List String}
    (h : xs.Pairwise fun a b => (compare a b).isLE = true) :
    xs.eraseDups.Pairwise fun a b => compare a b = .lt := by
  induction hlength : xs.length using Nat.strong_induction_on generalizing xs with
  | _ n ih =>
    cases xs with
    | nil => exact .nil
    | cons a as =>
      obtain ⟨ha, has⟩ := List.pairwise_cons.1 h
      rw [List.eraseDups_cons, List.pairwise_cons]
      refine ⟨fun b hb => ?_, ih _ ?_ (has.filter _) rfl⟩
      · obtain ⟨hmem, hne⟩ := List.mem_filter.1 (List.mem_eraseDups.1 hb)
        refine (Ordering.isLE_iff_eq_lt_or_eq_eq.1 (ha b hmem)).resolve_right fun heq => ?_
        rw [Std.compare_eq_iff_eq] at heq
        simp [heq] at hne
      · rw [← hlength, List.length_cons]
        exact Nat.lt_succ_of_le (List.length_filter_le _ _)

/-- Sorted values depend on what is in the list only. -/
theorem sortedDistinct_congr {xs ys : List String} (h : ∀ x, x ∈ xs ↔ x ∈ ys) :
    sortedDistinct xs = sortedDistinct ys := by
  let r : String → String → Prop := fun a b => compare a b = .lt
  have hirrefl : Std.Irrefl r := ⟨fun a ha => by simp [r, Std.ReflCmp.compare_self] at ha⟩
  have hantisymm : Std.Antisymm r := ⟨fun a b hab hba => by
    have hswap : compare b a = (compare a b).swap := Std.OrientedCmp.eq_swap
    rw [show compare a b = .lt from hab, show compare b a = .lt from hba] at hswap
    cases hswap⟩
  have hstrict : ∀ zs : List String, (sortedDistinct zs).Pairwise r := fun zs =>
    pairwise_eraseDups (pairwise_sorted zs)
  refine (hstrict xs).eq_of_mem_iff (hstrict ys) fun x => ?_
  rw [mem_sortedDistinct, mem_sortedDistinct, h]

theorem mem_ids {g : Group} {id : String} :
    id ∈ g.ids ↔ id ≠ "" ∧ ∃ m ∈ g.members, m.value.id = some id := by
  rw [Group.ids, mem_sortedDistinct, List.mem_filterMap]
  simp only [Option.filter_eq_some_iff]
  constructor
  · rintro ⟨m, hm, hid, hfilled⟩
    exact ⟨by simpa using hfilled, m, hm, hid⟩
  · rintro ⟨hfilled, m, hm, hid⟩
    exact ⟨m, hm, hid, by simpa using hfilled⟩

/-- Groups whose members have the same identifiers have the same identifiers. -/
theorem ids_congr {g g' : Group}
    (h : ∀ id, (∃ m ∈ g.members, m.value.id = id) ↔ ∃ m ∈ g'.members, m.value.id = id) :
    g.ids = g'.ids := by
  refine sortedDistinct_congr fun id => ?_
  have hids : id ∈ g.ids ↔ id ∈ g'.ids :=
    mem_ids.trans ((and_congr_right fun _ => h (some id)).trans mem_ids.symm)
  exact mem_sortedDistinct.symm.trans (hids.trans mem_sortedDistinct)

/-- The representations of a type have one identifier among them. -/
def CanonicalType.HasOneId (c : CanonicalType) (id : String) : Prop :=
  id ≠ "" ∧ (∃ m ∈ c.members, m.value.id = some id) ∧
    ∀ m ∈ c.members, ∀ i, m.value.id = some i → i ≠ "" → i = id

/-- A group has exactly one identifier if its type has, and the same. -/
theorem ids_eq_singleton_iff {c : CanonicalType} {g : Group} {id : String}
    (hmembers : c.members = g.members) : g.ids = [id] ↔ c.HasOneId id := by
  rw [CanonicalType.HasOneId, hmembers]
  constructor
  · intro h
    obtain ⟨hfilled, hid⟩ := mem_ids.1 (h ▸ List.mem_singleton_self id)
    refine ⟨hfilled, hid, fun m hm i hi hne => ?_⟩
    have hmem : i ∈ g.ids := mem_ids.2 ⟨hne, m, hm, hi⟩
    rw [h] at hmem
    exact List.mem_singleton.1 hmem
  · rintro ⟨hfilled, hid, honly⟩
    show sortedDistinct _ = sortedDistinct [id]
    refine sortedDistinct_congr fun i => ?_
    rw [← mem_sortedDistinct, List.mem_singleton]
    constructor
    · intro hi
      obtain ⟨hne, m, hm, hi⟩ := mem_ids.1 hi
      exact honly m hm i hi hne
    · rintro rfl
      exact mem_ids.2 ⟨hfilled, hid⟩

/-- The scope of a module before any type has a name holds what generated source uses itself. -/
theorem mem_taken_moduleScope {config : ClientConfig} {name : String} :
    name ∈ (moduleScope config).taken ↔ name = config.clientName ∨ name ∈ importedNames := by
  have hfold : ∀ (names : List String) (s : NameScope),
      name ∈ (names.foldl (fun s name => s.reserve name "generated imports") s).taken ↔
        name ∈ names ∨ name ∈ s.taken := by
    intro names
    induction names with
    | nil => simp
    | cons n names ih =>
      intro s
      rw [List.foldl_cons, ih, NameScope.mem_taken_reserve, List.mem_cons]
      tauto
  rw [moduleScope, NameScope.mem_taken_reserve, hfold]
  simp [NameScope.taken]

/-- The names of the types and enums of a table: those of the module were given by one scope, those
of a class differ, and a type with one identifier is named after it. -/
structure NamesTypes (config : ClientConfig) (table : TypeTable) : Prop where
  given : ∃ names, (moduleScope config).Takes names table.scope ∧
    names.Perm (table.moduleTypes.map (·.name) ++ table.enums.map (·.name)) ∧
    ∀ name ∈ names, name ∉ reservedWords
  nested : ∀ place, ((table.nestedIn place).map (·.name)).Nodup
  capital : (∀ c ∈ table.types, Capital c.name) ∧ ∀ e ∈ table.enums, Capital e.name
  byId : ∀ c ∈ table.types, ∀ id, c.HasOneId id →
    c.name = (if pascal id ∈ reservedWords then pascal id ++ "_" else pascal id) ∧
      (pascal id ∈ reservedWords → config.escapeReserved = true)

theorem moduleScope_reserved (config : ClientConfig) :
    (moduleScope config).reserved = reservedWords := rfl

/-- A group that is named after its only identifier stands in the module. -/
theorem owner?_of_mem_declared {config : ClientConfig} {groups : Groups}
    {declared : List (Group × String)} (h : declared.map (·.1) = groups.filter (·.isDeclared)) :
    ∀ x ∈ declared, x.1.owner? config = none := by
  intro x hx
  have hmem : x.1 ∈ groups.filter (·.isDeclared) := h ▸ List.mem_map_of_mem hx
  exact owner?_of_isDeclared (List.mem_filter.1 hmem).2 config

theorem typesNamed_of_forall₂ {r : Resolution} {config : ClientConfig} {groups : Groups}
    {declared others : List (Group × String)} {types : List CanonicalType}
    (hnodup : (groups.map (·.signature)).Nodup)
    (hdeclared : declared.map (·.1) = groups.filter (·.isDeclared))
    (hothers : others.map (·.1) = groups.filter (!·.isDeclared))
    (h : List.Forall₂ (fun g c => g.type r config (signed declared ++ signed others) = .ok c)
      groups types) :
    TypesNamed config groups (declared ++ others) types where
  nodup := hnodup
  perm := by
    rw [List.map_append, hdeclared, hothers]
    exact List.filter_append_perm _ groups
  each := by
    refine h.imp fun g c hc => ?_
    obtain ⟨hbelongs, hname⟩ := Group.type_ok hc
    rw [hname, signed, signed, signed, List.map_append]
    exact ⟨hbelongs.signature, hbelongs.members, hbelongs.owner, rfl⟩

/-- A name after an identifier has a capital and is not reserved. -/
theorem NamedById.capital {escapes : Bool} {g : Group} {name : String}
    (h : NamedById escapes g name) : Capital name ∧ name ∉ reservedWords := by
  obtain ⟨id, -, hne, hname, -⟩ := h
  have hescaped : name = ({ label := "" } : NameScope).escaped (pascal id) := by
    rw [hname, NameScope.escaped]
    simp
  rw [hescaped]
  exact ⟨(capital_pascal hne).escaped _, escaped_notMem rfl _⟩

/-- It is that of the only identifier. -/
theorem NamedById.of_ids {escapes : Bool} {g : Group} {name id : String}
    (h : NamedById escapes g name) (hids : g.ids = [id]) :
    name = (if pascal id ∈ reservedWords then pascal id ++ "_" else pascal id) ∧
      (pascal id ∈ reservedWords → escapes = true) := by
  obtain ⟨id', hids', -, hname, hescapes⟩ := h
  obtain rfl : id = id' := by simpa [hids] using hids'
  exact ⟨hname, hescapes⟩

/-- Whenever unification succeeds, the table names all of its types. -/
theorem unify_names {r : Resolution} {config : ClientConfig} {table : TypeTable}
    (h : Yields (unify r config) table) : NamesTypes config table := by
  obtain ⟨groups, hgroups, h⟩ := h.bind
  obtain ⟨⟨scope, names⟩, hdeclared, h⟩ := h.bind
  obtain ⟨types, htypes, h⟩ := Yields.bind h
  obtain ⟨_, -, hcollect⟩ := h.bind
  obtain ⟨visited, -, hgrouped⟩ := grouped_groupsOf hgroups.lift
  obtain ⟨declared, rfl, hdeclaredGroups, htakes, hbyId⟩ :=
    nameDeclared_ok (moduleScope_reserved config) hdeclared.lift
  obtain ⟨others, hothers⟩ := nameOthers_spec config scope [] (capital_of_mem_sites hgroups.lift)
  rw [hothers.names_eq] at htypes
  have hnamed : TypesNamed config groups (declared ++ others) types :=
    typesNamed_of_forall₂ hgrouped.nodup hdeclaredGroups hothers.groups_eq
      (htypes.mapM.imp fun g c hc => hc.lift)
  have hinModule : ∀ x ∈ declared, x.1.owner? config = none :=
    owner?_of_mem_declared hdeclaredGroups
  -- names after identifiers belong to the module
  have hdeclaredNames : moduleNames config declared = declared.map (·.2) := by
    rw [moduleNames, List.filter_eq_self.2 fun x hx => by simp [hinModule x hx]]
  have hdeclaredCapital : ∀ x ∈ declared, Capital x.2 ∧ x.2 ∉ reservedWords :=
    fun x hx => (hbyId x hx).capital
  have hcapital : ∀ c ∈ types, Capital c.name := by
    intro c hc
    obtain ⟨g, hg, -⟩ := hnamed.mem_named hc
    rcases List.mem_append.1 hg with hg | hg
    · exact (hdeclaredCapital _ hg).1
    · exact hothers.capital _ hg
  obtain ⟨rfl, more, henums, htakenEnums, hmore⟩ := collectEnums_takes hcapital hcollect.lift
  rw [List.nil_append] at henums
  have hscope : scope.reserved = reservedWords :=
    htakes.reserved.trans (moduleScope_reserved config)
  refine ⟨⟨_, (htakes.append hothers.takes).append htakenEnums, ?_, ?_⟩, fun place => ?_,
    ⟨hcapital, ?_⟩, fun c hc id hid => ?_⟩
  · rw [← hdeclaredNames, henums, moduleNames, moduleNames, ← List.map_append, ← List.filter_append]
    exact (hnamed.names_perm (·.isNone)).append_right _
  · rw [List.forall_mem_append, List.forall_mem_append]
    refine ⟨⟨?_, hothers.notReserved hscope⟩, ?_⟩
    · rw [List.forall_mem_map]
      exact fun x hx => (hdeclaredCapital x hx).2
    · rw [List.forall_mem_map]
      exact fun e he => (hmore e he).2 (hothers.takes.reserved.trans hscope)
  · have hnone : (declared.filter fun x => (x.1.owner? config).any (·.place = place)) = [] :=
      List.filter_eq_nil_iff.2 fun x hx => by simp [hinModule x hx]
    have hperm := hnamed.names_perm (fun o => o.any (·.place = place))
    rw [List.filter_append, hnone, List.nil_append] at hperm
    exact hperm.nodup_iff.1 (hothers.nested place).1
  · rw [henums]
    exact fun e he => (hmore e he).1
  · obtain ⟨g, hg, hmembers, -⟩ := hnamed.mem_named hc
    have hids := (ids_eq_singleton_iff hmembers).2 hid
    rcases List.mem_append.1 hg with hg | hg
    · exact (hbyId _ hg).of_ids hids
    · have hmem : g ∈ groups.filter (!·.isDeclared) :=
        hothers.groups_eq ▸ List.mem_map_of_mem (f := (·.1)) hg
      have hnot := (List.mem_filter.1 hmem).2
      rw [isDeclared_iff.2 ⟨id, hids⟩] at hnot
      cases hnot

/-- The members of each enum have names of their own. -/
theorem unify_wellNamed {r : Resolution} {config : ClientConfig} {table : TypeTable}
    (h : Yields (unify r config) table) :
    ∀ e ∈ table.enums, e.WellNamed := by
  obtain ⟨scope, hcollect⟩ := unify_collects h
  refine collectEnums_keeps (fun t => ∀ e ∈ t.enums, e.WellNamed) (fun _ => True)
    (fun _ _ => trivial) (fun _ _ => ⟨trivial, fun _ => trivial⟩) (fun _ _ t t' p ht hadd => ?_)
      (List.forall_mem_nil _) hcollect
  rcases addEnum_cases hadd with ⟨rfl, -⟩ | ⟨-, scope, e, -, -, hnamed, rfl⟩
  · exact ht
  · exact List.forall_mem_append.2 ⟨ht, List.forall_mem_singleton.2 hnamed⟩

end Wadl
