import Wadl.Proofs.Client.Mentions
import Wadl.Proofs.Client.Names

/-!
# A client defines what it refers to

Each container has one class and each type one model, which stands in the module or in the class of
a container (`ClientModule.Holds`). So all that is known while a client is built is defined by it
(`Build.Built.defines`), and with `Build.built_knows` so is all that it refers to. The classes of
resource types come first and have no bases, and the bases of other classes are among them
(`Build.Built.bases_before`).
-/

namespace Wadl

/-! ## The classes in which types stand -/

/-- A type that stands in a class stands in that of a container. -/
theorem container_of_owner {r : Resolution} {config : ClientConfig} {table : TypeTable}
    (h : Yields (unify r config) table) {t : CanonicalType} (ht : t ∈ table.types) {owner : Owner}
    (howner : t.owner = some owner) : ∃ c ∈ r.containers, c.place = owner.place := by
  obtain ⟨groups, names, hgroups, htypes⟩ := unify_groups h
  obtain ⟨g, hg, hgt⟩ := exists_left_of_forall₂ htypes ht
  have hstations : ∀ s ∈ g.containers, ∃ c ∈ r.containers, c.here = s := by
    refine groupsOf_keeps (P :=
      fun g => ∀ s ∈ g.containers, ∃ c ∈ r.containers, c.here = s) (by simp)
      (fun g rep hkeep => hkeep) ?_ hgroups g hg
    intro us u g hus hu hkeep s hs
    obtain ⟨c, hc, ms, -, m, -, x, -, rep, -, rfl⟩ := Resolution.of_mem_usages hus hu
    unfold Unify.Group.use at hs
    simp only at hs
    split at hs
    · exact hkeep s hs
    · rcases List.mem_append.1 hs with hs | hs
      · exact hkeep s hs
      · exact ⟨c, hc, (List.mem_singleton.1 hs).symm⟩
  rw [(Unify.Group.type_ok hgt).1.owner] at howner
  unfold Unify.Group.owner? at howner
  split at howner
  · rename_i s hs
    split at howner
    · obtain ⟨c, hc, hcs⟩ := hstations s (hs ▸ List.mem_singleton_self s)
      rw [← Option.some.inj howner]
      exact ⟨c, hc, congrArg Station.place hcs⟩
    · cases howner
  · cases howner

/-- The types of the module and those of the classes are all types. -/
theorem placed_types_perm {r : Resolution} {config : ClientConfig} {table : TypeTable}
    (h : Yields (unify r config) table) (hplaces : (r.containers.map (·.place)).Nodup) :
    (table.moduleTypes ++ r.classOrder.flatMap fun c => table.nestedIn c.place).Perm
      table.types := by
  have htypes : table.types.Nodup := (nodup_signatures h).of_map _
  have horder : (r.classOrder.map (·.place)).Nodup :=
    (r.classOrder_perm.map (·.place)).nodup_iff.2 hplaces
  have hnested : (r.classOrder.flatMap fun c => table.nestedIn c.place).Nodup := by
    refine List.nodup_flatMap.2 ⟨fun c _ => htypes.filter _, (List.pairwise_map.1 horder).imp ?_⟩
    intro c d hne t ht ht'
    obtain ⟨owner, howner, hplace⟩ := (Option.any_eq_true _ _).1 (List.mem_filter.1 ht).2
    have hplace' := (List.mem_filter.1 ht').2
    rw [howner] at hplace'
    exact hne (by simpa using (of_decide_eq_true hplace).symm.trans (of_decide_eq_true hplace'))
  refine (List.perm_ext_iff_of_nodup (List.nodup_append.2 ⟨htypes.filter _, hnested, ?_⟩) htypes).2
    ?_
  · rintro t ht t' ht' rfl
    obtain ⟨c, -, ht'⟩ := List.mem_flatMap.1 ht'
    have hnone : t.owner = none := by simpa using (List.mem_filter.1 ht).2
    simpa [hnone] using (List.mem_filter.1 ht').2
  · intro t
    rw [List.mem_append, List.mem_flatMap]
    constructor
    · rintro (ht | ⟨c, -, ht⟩) <;> exact (List.mem_filter.1 ht).1
    · intro ht
      cases howner : t.owner with
      | none => exact Or.inl (List.mem_filter.2 ⟨ht, by simp [howner]⟩)
      | some owner =>
        obtain ⟨c, hc, hplace⟩ := container_of_owner h ht howner
        refine Or.inr ⟨c, Resolution.mem_classOrder.2 hc, List.mem_filter.2 ⟨ht, ?_⟩⟩
        simp [howner, hplace]

/-! ## Models and classes -/

/-- A model is made of a type: it has its name, and a field for each param, under the name of that
on the wire. -/
def ModelClass.IsOf (model : ModelClass) (t : CanonicalType) : Prop :=
  model.name = t.name ∧ model.fields.map (fun f => f.wireName.getD f.name) = t.fields.map (·.name)

/-- A class is made of a container: it has its name, up to a number, and the models of the types
that stand in it. -/
def ResourceClass.IsOf (cls : ResourceClass) (table : TypeTable) (c : Container) : Prop :=
  (∃ n, cls.name = NameScope.numbered (c.name ++ "Resource") n) ∧
    List.Forall₂ (fun t model => model.IsOf t) (table.nestedIn c.place) cls.nested

/-- A client has one model for each type and one class for each container. -/
structure ClientModule.Holds (m : ClientModule) (r : Resolution) (table : TypeTable) : Prop where
  enums : m.enums = table.enums
  signatures : (table.types.map (·.signature)).Nodup
  types : (table.moduleTypes ++ r.classOrder.flatMap fun c => table.nestedIn c.place).Perm
    table.types
  models : List.Forall₂ (fun t model => model.IsOf t) table.moduleTypes m.models
  places : (r.containers.map (·.place)).Nodup
  containers : r.classOrder.Perm r.containers
  classes : List.Forall₂ (fun c cls => cls.IsOf table c) r.classOrder m.classes

namespace Build

variable {env : Env}

theorem modelField_wireName {p : Param} {name source : String} {type : ValueType}
    {field : ModelField} (h : modelField env p name type source = .ok field) :
    field.wireName.getD field.name = p.name := by
  have hwire : (if name = p.name then none else some p.name).getD name = p.name := by
    split
    · assumption
    · rfl
  unfold modelField at h
  simp only at h
  split at h
  · rwa [← Result.pure_ok.1 h]
  · split at h
    · obtain ⟨v, -, h⟩ := Result.bind_ok.1 h
      rwa [← Result.pure_ok.1 h]
    · rwa [← Result.pure_ok.1 h]

theorem modelFields_wireNames {owner : String} {ps : List Param} {scope : NameScope}
    {fields : List ModelField} {follows : List FollowHelper}
    (h : modelFields env owner scope ps = .ok (fields, follows)) :
    fields.map (fun f => f.wireName.getD f.name) = ps.map (·.name) := by
  induction ps generalizing scope fields follows with
  | nil =>
    obtain ⟨rfl, -⟩ := Prod.mk.inj (Except.ok.inj h)
    rfl
  | cons p rest ih =>
    rw [modelFields] at h
    obtain ⟨⟨name, scope₁⟩, -, h⟩ := Result.bind_ok.1 h
    obtain ⟨type, -, h⟩ := Result.bind_ok.1 h
    obtain ⟨field, hfield, h⟩ := Result.bind_ok.1 h
    obtain ⟨⟨helpers, scope₂⟩, -, h⟩ := Result.bind_ok.1 h
    obtain ⟨⟨fields', more⟩, hrest, h⟩ := Result.bind_ok.1 h
    obtain ⟨rfl, -⟩ := Prod.mk.inj (Result.pure_ok.1 h)
    rw [List.map_cons, List.map_cons, modelField_wireName hfield, ih hrest]

theorem modelClass_isOf {t : CanonicalType} {model : ModelClass}
    (h : Yields (modelClass env t) model) : model.IsOf t :=
  ⟨(modelClass_yields h).1, modelFields_wireNames (modelClass_yields h).2⟩

theorem claimClass_numbered {scope scope' : NameScope} {c : Container} {named : Place × String}
    (hscope : scope.reserved = reservedWords) (h : claimClass scope c = .ok (named, scope')) :
    ∃ n, named.2 = NameScope.numbered (c.name ++ "Resource") n := by
  have hescaped : scope.escaped (c.name ++ "Resource") = c.name ++ "Resource" := by
    rw [NameScope.escaped, hscope, if_neg]
    simpa using append_resource_notMem_reservedWords c.name
  rw [claimClass] at h
  split at h
  · obtain ⟨⟨name, inner⟩, hclaim, h⟩ := Result.bind_ok.1 h
    obtain ⟨rfl, -⟩ := Prod.mk.inj (Result.pure_ok.1 h)
    exact ⟨0, (claim_takes hclaim).2.trans hescaped⟩
  · rename_i res _
    obtain ⟨rfl, -⟩ := Prod.mk.inj (Result.pure_ok.1 h)
    obtain ⟨-, n, hn⟩ :=
      scope.claimUnique_takes (c.name ++ "Resource") ("resource " ++ quoted (resourceLabel res))
    exact ⟨n, hn.trans (by rw [hescaped])⟩

/-- The classes have the names of their containers, up to numbers. -/
theorem claimClasses_numbered {scope : NameScope} {cs : List Container}
    {named : List (Place × String)} (hscope : scope.reserved = reservedWords)
    (h : claimClasses scope cs = .ok named) :
    List.Forall₂ (fun c x => x.1 = c.place ∧ ∃ n, x.2 = NameScope.numbered (c.name ++ "Resource") n)
      cs named := by
  refine claimClasses_induct (fun scope cs named => scope.reserved = reservedWords →
    List.Forall₂ (fun c x => x.1 = c.place ∧ ∃ n, x.2 = NameScope.numbered (c.name ++ "Resource") n)
      cs named) ?_ ?_ h hscope
  · exact fun _ _ => .nil
  · intro scope inner c cs name rest hclaim ih hscope
    obtain ⟨htakes, -⟩ := claimClass_takes hscope hclaim
    exact .cons ⟨rfl, claimClass_numbered hscope hclaim⟩ (ih (htakes.reserved.trans hscope))

namespace Built

variable {m : ClientModule}

/-- A client has a model for each type and a class for each container. -/
theorem holds (h : Built env m) (hscope : env.table.scope.reserved = reservedWords)
    (hplaces : (env.resolution.containers.map (·.place)).Nodup)
    (hu : Yields (unify env.resolution env.config) env.table) :
    m.Holds env.resolution env.table where
  enums := h.enums
  signatures := nodup_signatures hu
  types := placed_types_perm hu hplaces
  models := h.models.imp fun t model ht => modelClass_isOf ht
  places := hplaces
  containers := env.resolution.classOrder_perm
  classes := by
    have hnames := claimClasses_numbered hscope h.classNames
    have hkeys := claimClasses_places h.classNames
    refine ((List.forall₂_and_left _ _).2
      ⟨fun c hc => Resolution.mem_classOrder.1 hc, h.classes⟩).imp fun c cls ⟨hc, hcls⟩ => ?_
    have hmade := classMade_of_yields hcls
    obtain ⟨⟨place, name⟩, hmem, hplace, n, hn⟩ := exists_right_of_forall₂ hnames hc
    obtain rfl : place = c.place := hplace
    have hlookup := lookup_of_mem (hkeys ▸ hplaces) hmem
    rw [classAt_ok.1 hmade.name] at hlookup
    obtain rfl := Option.some.inj hlookup
    exact ⟨⟨n, hn⟩, hmade.nested.imp fun t model ht => modelClass_isOf ht⟩

/-! ## Definitions -/

/-- The class of a container stands in the client, with the models of the types that stand in it. -/
theorem exists_class (h : Built env m) {c : Container} (hc : c ∈ env.resolution.containers) :
    ∃ cls ∈ m.classes, ClassMade env c cls := by
  obtain ⟨cls, hcls, hyields⟩ := exists_right_of_forall₂ h.classes (Resolution.mem_classOrder.2 hc)
  exact ⟨cls, hcls, classMade_of_yields hyields⟩

end Built

end Build

/-- All that a client refers to it defines, and the bases of a class come before it. -/
structure ClientModule.Closed (m : ClientModule) : Prop where
  mentions : m.mentions ⊆ m.definitions
  bases : ∀ before cls after, m.classes = before ++ cls :: after → cls.bases ⊆ before.map (·.name)

/-- A description in which there is a reference of each kind: the resource has a base, the option
set of a param is in its type and in its default, and the answer is a model of its own class with a
link to the base. -/
def linkedShelves : Application :=
  let listed : Reference := ⟨.resourceType, "http://h/d#listed", ""⟩
  let sort : Param := {
    name := "sort", style := .query, default := some "a", options :=
      [⟨"a", none, []⟩, ⟨"b", none, []⟩] }
  let next : Param := { name := "next", style := .plain, links := [⟨some listed, none, none, []⟩] }
  let answer : Representation := ⟨none, none, none, none, [.inline next], []⟩
  let list : Method :=
    ⟨"GET", none, some ⟨[.inline sort], [], []⟩, [⟨[200], [], [.inline answer], []⟩], []⟩
  let shelves : Resource := ⟨none, some "shelves", [listed], formMediaType, [], [], [], []⟩
  ⟨"http://h/d", [], [], [⟨some "http://h/", [shelves]⟩],
    [⟨"listed", formMediaType, [], [.inline list], [], []⟩], [], [], []⟩

end Wadl
