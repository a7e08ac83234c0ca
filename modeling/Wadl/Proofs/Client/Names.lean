import Wadl.Client.Generate
import Wadl.Proofs.Client.Building
import Wadl.Proofs.Client.TypeNames
import Wadl.Proofs.Resolution.Containers

/-!
# Names in a client differ

Every name of a client is given by a scope: those of the module by one scope that types, enums and
classes share (`claimClasses_takes`), those of the fields and helpers of a model by one
(`modelFields_takes`), and those of the operations and accessors of a class by one
(`operations_take`, `accessors_take`). The models in a class have a scope of their own, but their
names begin with a capital, and those of operations and accessors do not. `names_differ` puts this
together.

A table of types can be made with one configuration and used for clients with others. Its scope
keeps the name of the first client free of types, enums and classes, but not those of the others. So
all these clients have the same names of enums, models and classes of resources
(`Build.Built.classNames_eq`), which differ, and the classes of a client differ just if the name of
the client is none of these (`shared_names_differ_iff`).
-/

namespace Wadl

namespace Build

variable {env : Env}

theorem claim_takes {scope scope' : NameScope} {name source given : String}
    (h : claim scope name source = .ok (given, scope')) :
    scope.Takes [given] scope' ∧ given = scope.escaped name :=
  have hclaim := NameScope.claim_ok (Result.mapError_ok.1 h)
  ⟨hclaim.1, hclaim.2.1⟩

/-- What is named after a text has the name that the text is given in the chosen style. -/
theorem claim_spelled {scope scope' : NameScope} (hscope : scope.reserved = reservedWords)
    {text source name : String}
    (h : claim scope (nameOf env text) source = .ok (name, scope')) :
    name = env.config.style.spelled text ∧ scope'.reserved = reservedWords := by
  obtain ⟨htakes, rfl⟩ := claim_takes h
  exact ⟨escaped_eq_spelled hscope _ _, htakes.reserved.trans hscope⟩

/-! ## Classes -/

theorem claimClass_takes {scope scope' : NameScope} {c : Container} {named : Place × String}
    (hscope : scope.reserved = reservedWords) (h : claimClass scope c = .ok (named, scope')) :
    scope.Takes [named.2] scope' ∧ Capital named.2 ∧ named.2 ∉ reservedWords := by
  have hword : Capital "Resource" := capital_of_check (by decide) (by decide)
  have hwanted : Capital (c.name ++ "Resource") := c.here.capital_name.append hword.isNameChar
  rw [claimClass] at h
  split at h
  · obtain ⟨⟨name, inner⟩, hclaim, h⟩ := Result.bind_ok.1 h
    obtain ⟨rfl, rfl⟩ := Prod.mk.inj (Result.pure_ok.1 h)
    obtain ⟨htakes, rfl⟩ := claim_takes hclaim
    exact ⟨htakes, hwanted.escaped scope, escaped_notMem hscope _⟩
  · rename_i res _
    let source := "resource " ++ quoted (resourceLabel res)
    obtain ⟨rfl, rfl⟩ := Prod.mk.inj (Result.pure_ok.1 h)
    exact ⟨(scope.claimUnique_takes _ source).1, hwanted.claimUnique scope source,
      claimUnique_notMem hscope _ source⟩

/-- The classes of containers take their names one after another. -/
theorem claimClasses_takes {scope : NameScope} {cs : List Container} {named : List (Place × String)}
    (hscope : scope.reserved = reservedWords) (h : claimClasses scope cs = .ok named) :
    (∃ scope', scope.Takes (named.map (·.2)) scope') ∧
      ∀ x ∈ named, Capital x.2 ∧ x.2 ∉ reservedWords := by
  refine claimClasses_induct (fun scope _ named => scope.reserved = reservedWords →
    (∃ scope', scope.Takes (named.map (·.2)) scope') ∧
      ∀ x ∈ named, Capital x.2 ∧ x.2 ∉ reservedWords) ?_ ?_ h hscope
  · exact fun scope _ => ⟨⟨scope, .nil scope⟩, by simp⟩
  · intro scope inner c cs name rest hclaim ih hscope
    obtain ⟨htakes, hname⟩ := claimClass_takes hscope hclaim
    obtain ⟨⟨last, htakes'⟩, hnames⟩ := ih (htakes.reserved.trans hscope)
    exact ⟨⟨last, htakes.cons htakes'⟩, List.forall_mem_cons.2 ⟨hname, hnames⟩⟩

/-! ## Models -/

theorem modelField_name {p : Param} {name source : String} {type : ValueType} {field : ModelField}
    (h : modelField env p name type source = .ok field) : field.name = name := by
  unfold modelField at h
  simp only at h
  split at h
  · rw [← Result.pure_ok.1 h]
  · split at h
    · obtain ⟨v, -, h⟩ := Result.bind_ok.1 h
      rw [← Result.pure_ok.1 h]
    · rw [← Result.pure_ok.1 h]

theorem followHelpers_take {p : Param} {field : String} {links : List Link}
    {scope scope' : NameScope} {helpers : List FollowHelper}
    (h : followHelpers env scope field p links = .ok (helpers, scope')) :
    scope.Takes (helpers.map (·.name)) scope' := by
  induction links generalizing scope helpers with
  | nil =>
    obtain ⟨rfl, rfl⟩ := Prod.mk.inj (Except.ok.inj h)
    exact .nil _
  | cons link rest ih =>
    rw [followHelpers] at h
    split at h
    · exact ih h
    · obtain ⟨target, -, h⟩ := Result.bind_ok.1 h
      obtain ⟨⟨name, inner⟩, hname, h⟩ := Result.bind_ok.1 h
      obtain ⟨⟨more, last⟩, hmore, h⟩ := Result.bind_ok.1 h
      obtain ⟨rfl, rfl⟩ := Prod.mk.inj (Result.pure_ok.1 h)
      exact (claim_takes hname).1.cons (ih hmore)

/-- The fields of a model and the helpers that follow their links take their names in one scope. -/
theorem modelFields_take {owner : String} {ps : List Param} {scope : NameScope}
    {fields : List ModelField} {follows : List FollowHelper}
    (h : modelFields env owner scope ps = .ok (fields, follows)) :
    ∃ names scope', scope.Takes names scope' ∧
      names.Perm (fields.map (·.name) ++ follows.map (·.name)) := by
  induction ps generalizing scope fields follows with
  | nil =>
    obtain ⟨rfl, rfl⟩ := Prod.mk.inj (Except.ok.inj h)
    exact ⟨[], scope, .nil scope, .refl _⟩
  | cons p rest ih =>
    rw [modelFields] at h
    obtain ⟨⟨name, scope₁⟩, hname, h⟩ := Result.bind_ok.1 h
    obtain ⟨type, -, h⟩ := Result.bind_ok.1 h
    obtain ⟨field, hfield, h⟩ := Result.bind_ok.1 h
    obtain ⟨⟨helpers, scope₂⟩, hhelpers, h⟩ := Result.bind_ok.1 h
    obtain ⟨⟨fields', more⟩, hrest, h⟩ := Result.bind_ok.1 h
    obtain ⟨rfl, rfl⟩ := Prod.mk.inj (Result.pure_ok.1 h)
    obtain ⟨names, scope₃, htakes, hperm⟩ := ih hrest
    refine ⟨name :: (helpers.map (·.name) ++ names), scope₃,
      (claim_takes hname).1.cons ((followHelpers_take hhelpers).append htakes), ?_⟩
    rw [List.map_cons, modelField_name hfield, List.map_append, List.cons_append]
    refine List.Perm.cons name ?_
    -- the helpers of the first field move behind the other fields
    calc helpers.map (·.name) ++ names
        |>.Perm (helpers.map (·.name) ++ (fields'.map (·.name) ++ more.map (·.name))) :=
          hperm.append_left _
      _ |>.Perm (fields'.map (·.name) ++ (helpers.map (·.name) ++ more.map (·.name))) := by
          rw [← List.append_assoc, ← List.append_assoc]
          exact List.perm_append_comm.append_right _

/-! ## Operations and accessors -/

/-- The operations of a class take their names in the scope of the class. -/
theorem operations_take {c : Container} {className : String} {methods ms : List (Placed Method)}
    {scope scope' : NameScope} {ops : List Operation}
    (h : Yields (operations env c className methods scope ms) (ops, scope')) :
    scope.Takes (ops.map (·.name)) scope' ∧ ∀ op ∈ ops, Small op.name := by
  refine operations_induct (fun scope _ ops scope' =>
    scope.Takes (ops.map (·.name)) scope' ∧ ∀ op ∈ ops, Small op.name) ?_ ?_ h
  · exact fun scope => ⟨.nil scope, by simp⟩
  · rintro scope inner scope' m ms op ops hop ⟨htakes, hsmall⟩
    obtain ⟨left, d₁, d₂, d₃, d₄, -, hname, -⟩ := operation_yields hop
    obtain ⟨htakes', hgiven⟩ := claim_takes hname
    refine ⟨htakes'.cons htakes, List.forall_mem_cons.2 ⟨?_, hsmall⟩⟩
    rw [hgiven]
    exact (small_identifier _ _).escaped scope

/-- The accessors of a class take their names after the operations. -/
theorem accessors_take {scope : NameScope}
    {wanted : List ((Container × Resource × UrlBase) × String)} {as : List Accessor}
    (hwanted : ∀ x ∈ wanted, Small x.2) (h : Yields (accessors env scope wanted) as) :
    (∃ scope', scope.Takes (as.map (·.name)) scope') ∧ ∀ a ∈ as, Small a.name := by
  refine accessors_induct (fun scope wanted as => (∀ x ∈ wanted, Small x.2) →
    (∃ scope', scope.Takes (as.map (·.name)) scope') ∧ ∀ a ∈ as, Small a.name) ?_ ?_ h hwanted
  · exact fun scope _ => ⟨⟨scope, .nil scope⟩, by simp⟩
  · intro scope inner child res base name rest a as ha ih hwanted
    obtain ⟨hname, hrest⟩ := List.forall_mem_cons.1 hwanted
    obtain ⟨⟨last, htakes⟩, hsmall⟩ := ih hrest
    obtain ⟨⟨source, hgiven⟩, -⟩ := accessor_yields ha
    obtain ⟨htakes', hsmall'⟩ : scope.Takes [a.name] inner ∧ Small a.name := by
      rcases hgiven with hclaim | hunique
      · obtain ⟨htakes', hgiven⟩ := claim_takes hclaim
        exact ⟨htakes', hgiven ▸ hname.escaped scope⟩
      · obtain ⟨htakes', k, hk⟩ := scope.claimUnique_takes name source
        rw [hunique] at htakes' hk
        refine ⟨htakes', ?_⟩
        rw [show a.name = _ from hk]
        exact (hname.escaped scope).numbered k
    exact ⟨⟨last, htakes'.cons htakes⟩, List.forall_mem_cons.2 ⟨hsmall', hsmall⟩⟩

theorem small_of_mem_accessorNames {resources : List Resource} :
    ∀ name ∈ accessorNames env resources, Small name := by
  intro name hname
  obtain ⟨res, -, rfl⟩ := List.mem_map.1 hname
  exact iteInduction (fun _ => small_identifier _ _) fun _ => small_identifier _ _

/-- The models, operations and accessors of a class have different names. -/
theorem classMade_nodup {c : Container} {cls : ResourceClass} {config : ClientConfig}
    (hnames : NamesTypes config env.table) (h : ClassMade env c cls) :
    (cls.nested.map (·.name) ++ cls.operations.map (·.name) ++
      cls.accessors.map (·.name)).Nodup := by
  obtain ⟨methods, scope, -, hops, haccessors⟩ := h.members
  obtain ⟨htakes, hopSmall⟩ := operations_take hops
  obtain ⟨⟨last, htakes'⟩, haccSmall⟩ := accessors_take
    (fun x hx => small_of_mem_accessorNames x.2 (List.of_mem_zip hx).2) haccessors
  have hnested : cls.nested.map (·.name) = (env.table.nestedIn c.place).map (·.name) := by
    rw [eq_comm, ← List.forall₂_eq_eq_eq, List.forall₂_map_left_iff, List.forall₂_map_right_iff]
    exact h.nested.imp fun t model hmodel => (modelClass_yields hmodel).1.symm
  rw [List.append_assoc, List.nodup_append, hnested]
  refine ⟨hnames.nested c.place, (htakes.append htakes').nodup, ?_⟩
  intro x hx y hy
  obtain ⟨t, ht, rfl⟩ := List.mem_map.1 hx
  refine (hnames.capital.1 t (List.mem_filter.1 ht).1).ne_small ?_
  rcases List.mem_append.1 hy with hy | hy
  · obtain ⟨op, hop, rfl⟩ := List.mem_map.1 hy
    exact hopSmall op hop
  · obtain ⟨a, ha, rfl⟩ := List.mem_map.1 hy
    exact haccSmall a ha

/-- The fields and helpers of a model have different names, none of which the library for models
uses. -/
theorem modelClass_nodup {t : CanonicalType} {model : ModelClass}
    (h : Yields (modelClass env t) model) :
    (model.fields.map (·.name) ++ model.follows.map (·.name)).Nodup ∧
      "model_config" ∉ model.fields.map (·.name) ++ model.follows.map (·.name) := by
  obtain ⟨-, hfields⟩ := modelClass_yields h
  obtain ⟨names, scope, htakes, hperm⟩ := modelFields_take hfields
  refine ⟨hperm.nodup_iff.1 htakes.nodup, fun hmem => ?_⟩
  exact htakes.fresh _ (hperm.mem_iff.2 hmem) (NameScope.mem_taken_reserve.2 (Or.inl rfl))

end Build

/-! ## Modules -/

/-- The names of a module: those of its enums, models and classes, that of the class that it begins
with, and those that it imports or uses. -/
def ClientModule.names (m : ClientModule) : List String :=
  m.enums.map (·.name) ++ m.models.map (·.name) ++ m.classes.map (·.name) ++
    m.entry.name :: importedNames

/-- The names in a module, in each of its classes and in each of its models differ, and those of the
module can stand in generated source, unless it is the name of the class that the module begins
with. -/
structure ClientModule.NamesDiffer (m : ClientModule) : Prop where
  module : m.names.Nodup
  identifiers : ∀ name ∈ m.names, name ≠ m.entry.name → IsIdentifier name
  classes : ∀ c ∈ m.classes,
    (c.nested.map (·.name) ++ c.operations.map (·.name) ++ c.accessors.map (·.name)).Nodup
  models : ∀ model ∈ m.models ++ m.classes.flatMap (·.nested),
    (model.fields.map (·.name) ++ model.follows.map (·.name)).Nodup ∧
      "model_config" ∉ model.fields.map (·.name) ++ model.follows.map (·.name)

namespace Build

/-- The names of the classes of containers, in the order in which a client has them. -/
def orderedNames (r : Resolution) (classNames : List (Place × String)) : List String :=
  r.classOrder.map fun c => (classNames.lookup c.place).getD ""

theorem orderedNames_perm {r : Resolution} {scope : NameScope} {classNames : List (Place × String)}
    (h : claimClasses scope r.containers = .ok classNames)
    (hplaces : (r.containers.map (·.place)).Nodup) :
    (orderedNames r classNames).Perm (classNames.map (·.2)) := by
  let nameOf (place : Place) : String := (classNames.lookup place).getD ""
  have hkeys := claimClasses_places h
  have hclaimed : classNames.map (·.2) = (r.containers.map (·.place)).map nameOf := by
    rw [← hkeys, List.map_map]
    refine List.map_congr_left fun x hx => ?_
    simp only [Function.comp_apply, nameOf, lookup_of_mem (hkeys ▸ hplaces) hx, Option.getD_some]
  rw [hclaimed, List.map_map]
  exact r.classOrder_perm.map _

namespace Built

variable {env : Env} {m : ClientModule}

theorem classes_names (h : Built env m) :
    m.classes.map (·.name) = orderedNames env.resolution env.classNames := by
  rw [orderedNames, eq_comm, ← List.forall₂_eq_eq_eq, List.forall₂_map_left_iff,
    List.forall₂_map_right_iff]
  refine h.classes.imp fun c cls hcls => ?_
  simp only [classAt_ok.1 (classMade_of_yields hcls).name, Option.getD_some]

/-- The classes of a client have the names that were claimed for their containers. -/
theorem classNames_perm (h : Built env m)
    (hplaces : (env.resolution.containers.map (·.place)).Nodup) :
    (m.classes.map (·.name)).Perm (env.classNames.map (·.2)) := by
  rw [h.classes_names]
  exact orderedNames_perm h.classNames hplaces

theorem models_names (h : Built env m) :
    m.models.map (·.name) = env.table.moduleTypes.map (·.name) := by
  rw [eq_comm, ← List.forall₂_eq_eq_eq, List.forall₂_map_left_iff, List.forall₂_map_right_iff]
  exact h.models.imp fun c model hmodel => (modelClass_yields hmodel).1.symm

theorem entry_name (h : Built env m) : m.entry.name = env.config.clientName := by
  obtain ⟨accessors, -, h⟩ := h.entry.bind
  obtain ⟨doc, -, h⟩ := h.bind
  rw [← h.pure]

end Built

end Build

theorem isIdentifier_importedNames : ∀ name ∈ importedNames, IsIdentifier name := by
  have hall : (importedNames.all fun name => decide (IsIdentifier name)) = true := by decide +kernel
  exact fun name hname => of_decide_eq_true (List.all_eq_true.1 hall name hname)

/-- The names in a client differ, if its first class has none of the imported names: those of the
module, which are identifiers, those in each class and those in each model. A type whose
representations have one identifier is named after it, with an underscore if that is a reserved
word. -/
theorem names_differ {w : Web} {fuel : Nat} {r : Resolution} {n n' : List Notice}
    (hr : Gives (resolveWith w.loading w.strict fuel w.app) n r n') {config : ClientConfig}
    {table : TypeTable} {s t : List Notice}
    (hu : Gives (unify r config) s table t) {m : ClientModule} {s' t' : List Notice}
    (hm : Gives (buildModule r table config) s' m t')
    (hclient : config.clientName ∉ importedNames) :
    m.NamesDiffer ∧ m.entry.name = config.clientName ∧
      ∀ c ∈ table.types, ∀ id, c.HasOneId id →
        c.name = (if pascal id ∈ reservedWords then pascal id ++ "_" else pascal id) ∧
          (pascal id ∈ reservedWords → config.escapeReserved = true) := by
  obtain ⟨classNames, hbuilt⟩ := Build.built_of_yields hm.yields
  have htypes := unify_names hu.yields
  obtain ⟨given, htakes, hgiven, hnotReserved⟩ := htypes.given
  obtain ⟨⟨last, htakes'⟩, hclassNames⟩ := Build.claimClasses_takes
    (htakes.reserved.trans (moduleScope_reserved config)) hbuilt.classNames
  have hclasses := hbuilt.classNames_perm (Web.nodup_places (Web.resolves_of_gives hr))
  have hmodels := hbuilt.models_names
  have hentry := hbuilt.entry_name
  -- the names that the scope of the module gave are those before that of the first class
  have hall : (m.enums.map (·.name) ++ m.models.map (·.name) ++ m.classes.map (·.name)).Perm
      (given ++ classNames.map (·.2)) := by
    rw [hbuilt.enums, hmodels]
    exact (List.perm_append_comm.trans hgiven.symm).append hclasses
  have hscope := htakes.append htakes'
  have hcapital : ∀ name ∈ m.enums.map (·.name) ++ m.models.map (·.name) ++ m.classes.map (·.name),
      IsIdentifier name := by
    intro name hname
    obtain ⟨hcapital, hreserved⟩ : Capital name ∧ name ∉ reservedWords := by
      rcases List.mem_append.1 (hall.mem_iff.1 hname) with hname | hname
      · refine ⟨?_, hnotReserved name hname⟩
        rcases List.mem_append.1 (hgiven.mem_iff.1 hname) with hname | hname
        · obtain ⟨c, hc, rfl⟩ := List.mem_map.1 hname
          exact htypes.capital.1 c (List.mem_filter.1 hc).1
        · obtain ⟨e, he, rfl⟩ := List.mem_map.1 hname
          exact htypes.capital.2 e he
      · obtain ⟨x, hx, rfl⟩ := List.mem_map.1 hname
        exact hclassNames x hx
    exact hcapital.isIdentifier fun hkeyword => hreserved (List.mem_append_left _ hkeyword)
  refine ⟨⟨?_, ?_, ?_, ?_⟩, hentry, htypes.byId⟩
  · rw [ClientModule.names, hentry]
    refine List.nodup_append.2 ⟨hall.nodup_iff.2 hscope.nodup, ?_, ?_⟩
    · exact List.nodup_cons.2 ⟨hclient, by decide⟩
    · intro x hx y hy hxy
      refine hscope.fresh x (hall.mem_iff.1 hx) (mem_taken_moduleScope.2 ?_)
      rw [hxy]
      exact List.mem_cons.1 hy
  · intro name hname hne
    rcases List.mem_append.1 hname with hname | hname
    · exact hcapital name hname
    · exact isIdentifier_importedNames name ((List.mem_cons.1 hname).resolve_left hne)
  · intro c hc
    obtain ⟨container, -, hcls⟩ := exists_left_of_forall₂ hbuilt.classes hc
    exact Build.classMade_nodup htypes (Build.classMade_of_yields hcls)
  · intro model hmodel
    obtain ⟨c, hyields⟩ : ∃ c,
        Yields (Build.modelClass ⟨r, table, config, classNames, r.containers⟩ c) model := by
      rcases List.mem_append.1 hmodel with hmodel | hmodel
      · obtain ⟨c, -, hc⟩ := exists_left_of_forall₂ hbuilt.models hmodel
        exact ⟨c, hc⟩
      · obtain ⟨cls, hcls, hmodel⟩ := List.mem_flatMap.1 hmodel
        obtain ⟨container, -, hyields⟩ := exists_left_of_forall₂ hbuilt.classes hcls
        obtain ⟨c, -, hc⟩ :=
          exists_left_of_forall₂ (Build.classMade_of_yields hyields).nested hmodel
        exact ⟨c, hc⟩
    exact Build.modelClass_nodup hyields

/-- A description in which many things would have one name: an option set and a representation whose
name is a reserved word, three resources with one path, and a method with the identifier of the
resource below it. -/
def crowdedNames : Application :=
  let status : ParamItem := .inline {
    name := "None", style := .query, options := [⟨"a", none, []⟩, ⟨"b", none, []⟩] }
  let answer (id : Option String) : Response :=
    ⟨[200], [], [.inline
      ⟨id, none, none, none, [.inline { name := "title", style := .plain }], []⟩], []⟩
  let shelf (method representation : Option String) (below : List Resource) : Resource :=
    ⟨none, some "shelf", [], formMediaType, [],
      [.inline ⟨"GET", method, some ⟨[status], [], []⟩, [answer representation], []⟩], below, []⟩
  ⟨"http://h/d", [], [], [⟨some "http://h/",
    [shelf (some "shelf") (some "none") [shelf none none []], shelf none none []]⟩], [], [], [], []⟩

theorem names_differ_crowdedNames :
    let w : Web := ⟨crowdedNames, none, false⟩
    let config : ClientConfig := { escapeReserved := true }
    ∃ r table t m t', Gives (resolveWith w.loading w.strict 0 w.app) [] r [] ∧
      Gives (unify r config) [] table t ∧ Gives (buildModule r table config) t m t' ∧
      config.clientName ∉ importedNames ∧ m.NamesDiffer ∧
      m.names = ["None_2", "None_", "ShelfResource", "ShelfShelfResource",
        "ShelfResource2", "Client"] ++ importedNames ∧
      ∃ c ∈ table.types, c.HasOneId "none" ∧ c.name = "None_" := by
  intro w config
  let r : Resolution := ⟨crowdedNames, [], [("http://h/d", crowdedNames)]⟩
  have hr : Gives (resolveWith w.loading w.strict 0 w.app) [] r [] := by rfl
  let build : Generating (TypeTable × ClientModule) := do
    let table ← unify r config
    return (table, ← buildModule r table config)
  obtain ⟨⟨table, m⟩, t', h⟩ := exists_gives (x := build) (s := []) (by decide +kernel)
  have hrun : (Id.run (build.run.run [])).1.toOption.map (fun x =>
      (x.1.types.map fun c => c.members.map (·.value.id), x.2.names)) =
      some ([[some "none", none, none]],
        ["None_2", "None_", "ShelfResource", "ShelfShelfResource", "ShelfResource2", "Client"] ++
          importedNames) := by
    decide +kernel
  rw [h] at hrun
  obtain ⟨hids, hnames⟩ := Prod.mk.inj (Option.some.inj hrun)
  obtain ⟨_, t, hu, hbuild⟩ := gives_bind.1 h
  obtain ⟨_, t', hm, hpure⟩ := gives_bind.1 hbuild
  obtain ⟨rfl, rfl⟩ := Prod.mk.inj (gives_pure.1 hpure).1.symm
  have hclient : config.clientName ∉ importedNames := by decide
  obtain ⟨hdiffer, -, hbyId⟩ := names_differ hr hu hm hclient
  obtain ⟨c, rest, htypes, hmembers, -⟩ := List.map_eq_cons_iff.1 hids
  have hc : c ∈ table.types := htypes ▸ List.mem_cons_self
  have hmem : ∀ i, (∃ x ∈ c.members, x.value.id = i) ↔ i = some "none" ∨ i = none := by
    intro i
    rw [← List.mem_map, hmembers]
    simp
  have hid : c.HasOneId "none" := by
    refine ⟨by decide, (hmem _).2 (Or.inl rfl), fun x hx i hi _ => ?_⟩
    simpa [hi] using (hmem _).1 ⟨x, hx, hi⟩
  refine ⟨r, table, t, m, t', hr, hu, hm, hclient, hdiffer, hnames, c, hc, hid, ?_⟩
  exact (hbyId c hc "none" hid).1.trans (by decide)

/-! ## Clients that share their types -/

open Unify (moduleScope)

/-- The names of the classes of a module: its enums and models, the classes of resources and
resource types, and the class that it begins with. -/
def ClientModule.classNames (m : ClientModule) : List String :=
  m.enums.map (·.name) ++ m.models.map (·.name) ++ m.classes.map (·.name) ++ [m.entry.name]

namespace Build

/-- The names of the classes in every module with a table, but for the class that the module begins
with. -/
def sharedNames (r : Resolution) (table : TypeTable) (classNames : List (Place × String)) :
    List String :=
  table.enums.map (·.name) ++ table.moduleTypes.map (·.name) ++ orderedNames r classNames

/-- Of the names of its classes, only that of the first class depends on the configuration of a
client. -/
theorem Built.classNames_eq {env : Env} {m : ClientModule} (h : Built env m) :
    m.classNames =
      sharedNames env.resolution env.table env.classNames ++ [env.config.clientName] := by
  rw [ClientModule.classNames, sharedNames, h.enums, h.models_names, h.classes_names, h.entry_name]

/-- The names that clients share differ, and those that the scope of the types began with are not
among them. -/
theorem sharedNames_nodup {r : Resolution} {config : ClientConfig} {table : TypeTable}
    (hu : Yields (unify r config) table) (hplaces : (r.containers.map (·.place)).Nodup)
    {classNames : List (Place × String)}
    (hclaim : claimClasses table.scope r.containers = .ok classNames) :
    (sharedNames r table classNames).Nodup ∧
      ∀ name ∈ (moduleScope config).taken, name ∉ sharedNames r table classNames := by
  obtain ⟨given, htakes, hgiven, -⟩ := (unify_names hu).given
  obtain ⟨⟨last, htakes'⟩, -⟩ :=
    claimClasses_takes (htakes.reserved.trans (moduleScope_reserved config)) hclaim
  have hscope := htakes.append htakes'
  have hperm : (sharedNames r table classNames).Perm (given ++ classNames.map (·.2)) :=
    (List.perm_append_comm.trans hgiven.symm).append (orderedNames_perm hclaim hplaces)
  refine ⟨hperm.nodup_iff.2 hscope.nodup, fun name htaken hname => ?_⟩
  exact hscope.fresh name (hperm.mem_iff.1 hname) htaken

end Build

/-- The source of a client with the types of a table is that of the client that is built with
them. -/
theorem gives_generateWith {isValid : String → Bool} {r : Resolution} {table : TypeTable}
    {config : ClientConfig} {s t : List Notice} {text : String} :
    Gives (generateWith isValid r table config) s text t ↔
      ∃ m u, Gives (buildModule r table config) s m u ∧ isValid m.source ∧ text = m.source ∧
        t = u ++ [m.notice] := by
  rw [generateWith, gives_bind]
  refine exists_congr fun m => exists_congr fun u => and_congr_right fun _ => ?_
  split
  · rename_i hvalid
    simp [gives_map, gives_modify, hvalid, eq_comm, and_comm]
  · rename_i hvalid
    simp [gives_throw, hvalid]

/-- Clients that share the types which were made with one configuration have the same names of
enums, models and classes of resources. These differ, and the client of that configuration and what
is imported have other names; but a class of a client has the name of another one just if the client
was given that name. -/
theorem shared_names_differ_iff {w : Web} {fuel : Nat} {r : Resolution} {n n' : List Notice}
    (hr : Gives (resolveWith w.loading w.strict fuel w.app) n r n') {first : ClientConfig}
    {table : TypeTable} {s t : List Notice} (hu : Gives (unify r first) s table t) :
    ∃ shared : List String, shared.Nodup ∧ first.clientName ∉ shared ∧
      (∀ name ∈ importedNames, name ∉ shared) ∧
      ∀ {isValid : String → Bool} {config : ClientConfig} {s' t' : List Notice} {text : String},
        Gives (generateWith isValid r table config) s' text t' →
        ∃ m u, Gives (buildModule r table config) s' m u ∧ text = m.source ∧
          m.classNames = shared ++ [config.clientName] ∧
          (m.classNames.Nodup ↔ config.clientName ∉ shared) := by
  have hplaces := Web.nodup_places (Web.resolves_of_gives hr)
  cases hclaim : Build.claimClasses table.scope r.containers with
  | error e =>
    -- without names for the classes, there is no client
    refine ⟨[], .nil, List.not_mem_nil, fun _ _ => List.not_mem_nil, fun h => ?_⟩
    obtain ⟨m, u, hm, -⟩ := gives_generateWith.1 h
    obtain ⟨classNames, hbuilt⟩ := Build.built_of_yields hm.yields
    cases hclaim.symm.trans hbuilt.classNames
  | ok classNames =>
    obtain ⟨hnodup, hfree⟩ := Build.sharedNames_nodup hu.yields hplaces hclaim
    refine ⟨Build.sharedNames r table classNames, hnodup,
      hfree _ (mem_taken_moduleScope.2 (Or.inl rfl)),
      fun name hname => hfree name (mem_taken_moduleScope.2 (Or.inr hname)),
        fun {_ config _ _ _} h => ?_⟩
    obtain ⟨m, u, hm, -, htext, -⟩ := gives_generateWith.1 h
    obtain ⟨classNames', hbuilt⟩ := Build.built_of_yields hm.yields
    obtain rfl := Except.ok.inj (hclaim.symm.trans hbuilt.classNames)
    have hnames : m.classNames = Build.sharedNames r table classNames ++ [config.clientName] :=
      hbuilt.classNames_eq
    refine ⟨m, u, hm, htext, hnames, ?_⟩
    rw [hnames, ← List.concat_eq_append, List.nodup_concat]
    exact and_iff_left hnodup

/-- A description with a representation and a resource, each with a class of its own. -/
def articles : Application :=
  let article : Representation :=
    ⟨some "Article", none, some "application/json", none,
      [.inline { name := "title", style := .plain }], []⟩
  let shelf : Resource := ⟨none, some "shelf", [], formMediaType, [], [], [], []⟩
  ⟨"http://h/d", [], [], [⟨some "http://h/", [shelf]⟩], [], [.inline article], [], []⟩

/-- A client that has the name of a type which it shares has two classes of that name, and one with
another name has none. -/
theorem shared_names_differ_iff_articles :
    let w : Web := ⟨articles, none, false⟩
    let config (name : String) : ClientConfig := { clientName := name }
    ∃ r table t u, Gives (resolveWith w.loading w.strict 0 w.app) [] r [] ∧
      Gives (unify r (config "Client")) [] table t ∧
      (∃ (m : ClientModule) (t' : List Notice),
        Gives (generateWith (fun _ => true) r table (config "Article")) t m.source t' ∧
          m.classNames = ["Article", "ShelfResource", "Article"] ∧ ¬m.classNames.Nodup) ∧
      ∃ (m : ClientModule) (t' : List Notice),
        Gives (generateWith (fun _ => true) r table (config "Library")) u m.source t' ∧
          m.classNames = ["Article", "ShelfResource", "Library"] ∧ m.classNames.Nodup := by
  intro w config
  let r : Resolution := ⟨articles, [], [("http://h/d", articles)]⟩
  have hr : Gives (resolveWith w.loading w.strict 0 w.app) [] r [] := by rfl
  let build : Generating (TypeTable × ClientModule × ClientModule) := do
    let table ← unify r (config "Client")
    let article ← buildModule r table (config "Article")
    return (table, article, ← buildModule r table (config "Library"))
  obtain ⟨⟨table, article, library⟩, t', h, hnamed⟩ := exists_gives_of_any (x := build) (s := [])
    (p := fun x => x.2.1.classNames = ["Article", "ShelfResource", "Article"]) (by decide +kernel)
  have harticle : article.classNames = ["Article", "ShelfResource"] ++ ["Article"] :=
    of_decide_eq_true hnamed
  obtain ⟨_, t, hu, h⟩ := gives_bind.1 h
  obtain ⟨_, u, hm, h⟩ := gives_bind.1 h
  obtain ⟨_, v, hm', h⟩ := gives_bind.1 h
  obtain ⟨rfl, rfl, rfl⟩ := (gives_pure.1 h).1
  obtain ⟨shared, hnodup, -, -, hshared⟩ := shared_names_differ_iff hr hu
  have harticle' :
      Gives (generateWith (fun _ => true) r table (config "Article")) t article.source _ :=
    gives_generateWith.2 ⟨article, u, hm, rfl, rfl, rfl⟩
  have hlibrary :
      Gives (generateWith (fun _ => true) r table (config "Library")) u library.source _ :=
    gives_generateWith.2 ⟨library, v, hm', rfl, rfl, rfl⟩
  obtain ⟨m, _, hbuilt, -, hnames, hiff⟩ := hshared harticle'
  obtain rfl : m = article := Except.ok.inj (Prod.mk.inj (hbuilt.symm.trans hm)).1
  obtain rfl : shared = ["Article", "ShelfResource"] :=
    List.append_cancel_right (hnames.symm.trans harticle)
  obtain ⟨m', _, hbuilt', -, hnames', hiff'⟩ := hshared hlibrary
  obtain rfl : m' = library := Except.ok.inj (Prod.mk.inj (hbuilt'.symm.trans hm')).1
  exact ⟨r, table, t, u, hr, hu, ⟨m, _, harticle', hnames, mt hiff.1 (by decide)⟩,
    m', _, hlibrary, hnames', hiff'.2 (by decide)⟩

end Wadl
