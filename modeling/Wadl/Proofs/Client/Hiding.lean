import Wadl.Proofs.Client.Closed
import Wadl.Proofs.Client.Inheritance

/-!
# What the class of a resource hides

The class of a resource inherits the operations and accessors of the classes of its types. A name is
looked for in the class and then in its bases, which have no bases themselves
(`ClientModule.definer?`); so a callable of a base is hidden if the class or a base before it has
one of the same name. Every class claims its names in a scope of its own, and nothing keeps two of
these classes from having one name: an operation is named after the label of its method
(`operations_spelled`), which is the verb of most methods. All that is inherited can be called if
and only if no two of the containers offer one name (`inherited_kept_iff`).
-/

namespace Wadl

/-- The names under which a class has operations and accessors itself. -/
def ResourceClass.callables (cls : ResourceClass) : List String :=
  cls.operations.map (·.name) ++ cls.accessors.map (·.name)

namespace ClientModule

/-- The class of a name. -/
def classNamed? (m : ClientModule) (name : String) : Option ResourceClass :=
  (m.classes.map fun cls => (cls.name, cls)).lookup name

/-- The bases of a class. -/
def basesOf (m : ClientModule) (cls : ResourceClass) : List ResourceClass :=
  cls.bases.filterMap m.classNamed?

/-- The class in which a name is found that is called on an instance of a class. -/
def definer? (m : ClientModule) (cls : ResourceClass) (name : String) : Option ResourceClass :=
  (cls :: m.basesOf cls).find? fun d => d.callables.contains name

/-- All that a class inherits can be called on its instances. -/
def KeepsInherited (m : ClientModule) (cls : ResourceClass) : Prop :=
  ∀ base ∈ m.basesOf cls, ∀ name ∈ base.callables, m.definer? cls name = some base

/-- A container offers a name: it has a method whose label gives this name, or its class has an
accessor of it. -/
def Offers (m : ClientModule) (r : Resolution) (style : NamingStyle) (c : Container)
    (name : String) : Prop :=
  (∃ methods, r.methods c = .ok methods ∧ ∃ x ∈ methods, style.spelled x.value.label = name) ∨
    ∃ cls, m.HasClass r c cls ∧ ∃ a ∈ cls.accessors, a.name = name

end ClientModule

/-- A container is that of a type of a resource. -/
def Container.HasType (r : Resolution) (c outer : Container) : Prop :=
  ∃ res ref type, c.here.holder = .resource res ∧ ref ∈ res.types ∧ r.resourceType ref = .ok type ∧
    outer ∈ r.containers ∧ outer.place = type.place

/-- Among some sources each name is found first where it is from, whatever the order, if and only if
no two of them share a name. -/
theorem find?_eq_self_iff {α β : Type} [DecidableEq β] {f : α → List β} {xs : List α} :
    (∀ x ∈ xs, ∀ n ∈ f x, xs.find? (fun y => (f y).contains n) = some x) ↔
      ∀ x ∈ xs, ∀ y ∈ xs, x ≠ y → ∀ n ∈ f x, n ∉ f y := by
  constructor
  · intro h x hx y hy hne n hnx hny
    exact hne (Option.some.inj ((h x hx n hnx).symm.trans (h y hy n hny)))
  · intro h x hx n hn
    obtain ⟨z, hz⟩ : ∃ z, xs.find? (fun y => (f y).contains n) = some z :=
      Option.isSome_iff_exists.1 (List.find?_isSome.2 ⟨x, hx, List.contains_iff_mem.2 hn⟩)
    have hnz : n ∈ f z :=
      List.contains_iff_mem.1 (List.find?_some (p := fun y => (f y).contains n) hz)
    rw [hz, Option.some.injEq]
    by_contra hne
    exact h z (List.mem_of_find?_eq_some hz) x hx hne n hnz hn

namespace ClientModule

variable {m : ClientModule}

/-- A class keeps what it inherits if and only if neither it and a base nor two of its bases have
one name. -/
theorem keepsInherited_iff {cls : ResourceClass} :
    m.KeepsInherited cls ↔ ∀ d ∈ cls :: m.basesOf cls, ∀ d' ∈ cls :: m.basesOf cls, d ≠ d' →
      ∀ name ∈ d.callables, name ∉ d'.callables := by
  rw [← find?_eq_self_iff]
  refine ⟨fun h => List.forall_mem_cons.2 ⟨fun name hname => ?_, h⟩,
    fun h => (List.forall_mem_cons.1 h).2⟩
  exact List.find?_cons_of_pos (List.contains_iff_mem.2 hname)

theorem classNamed?_eq_some (h : (m.classes.map (·.name)).Nodup) {name : String}
    {cls : ResourceClass} : m.classNamed? name = some cls ↔ cls ∈ m.classes ∧ cls.name = name := by
  constructor
  · intro hcls
    obtain ⟨d, hd, heq⟩ := List.mem_map.1 (mem_of_lookup hcls)
    obtain ⟨rfl, rfl⟩ := Prod.mk.inj heq
    exact ⟨hd, rfl⟩
  · rintro ⟨hcls, rfl⟩
    refine lookup_of_mem ?_ (List.mem_map_of_mem hcls)
    rwa [List.map_map]

end ClientModule

namespace Build

variable {env : Env} {m : ClientModule}

/-- The operations of a class are named after the labels of the methods. -/
theorem operations_spelled {c : Container} {className : String} {methods ms : List (Placed Method)}
    {scope scope' : NameScope} {ops : List Operation} (hscope : scope.reserved = reservedWords)
    (h : Yields (operations env c className methods scope ms) (ops, scope')) :
    ops.map (·.name) = ms.map fun x => env.config.style.spelled x.value.label := by
  refine operations_induct (fun scope ms ops _ => scope.reserved = reservedWords →
    ops.map (·.name) = ms.map fun x => env.config.style.spelled x.value.label)
      (fun _ _ => rfl) ?_ h hscope
  intro scope inner scope' m ms op ops hop ih hscope
  obtain ⟨left, d₁, d₂, d₃, d₄, -, hname, -⟩ := operation_yields hop
  obtain ⟨hspelled, hinner⟩ := claim_spelled hscope hname
  rw [List.map_cons, List.map_cons, hspelled, ih hinner]

/-! ## Containers and their classes -/

/-- A client is built of containers in different places, and its classes have different names. -/
structure BuiltApart (env : Env) (m : ClientModule) : Prop where
  built : Built env m
  places : (env.resolution.containers.map (·.place)).Nodup
  names : (env.classNames.map (·.2)).Nodup

namespace BuiltApart

variable {c d : Container} {cls cls' : ResourceClass}

theorem classMade (h : BuiltApart env m) (hcls : m.HasClass env.resolution c cls) :
    ClassMade env c cls :=
  classMade_of_yields ((List.forall₂_iff_zip.1 h.built.classes).2 hcls)

theorem exists_class (h : BuiltApart env m) (hc : c ∈ env.resolution.containers) :
    ∃ cls, m.HasClass env.resolution c cls := by
  obtain ⟨cls, hcls, -⟩ := exists_zip_of_forall₂ h.built.classes (Resolution.mem_classOrder.2 hc)
  exact ⟨cls, hcls⟩

theorem nodup_classes (h : BuiltApart env m) : (m.classes.map (·.name)).Nodup :=
  (h.built.classNames_perm h.places).nodup_iff.2 h.names

/-- Containers whose classes have one name are one. -/
theorem container_inj (h : BuiltApart env m) (hc : m.HasClass env.resolution c cls)
    (hd : m.HasClass env.resolution d cls') (hname : cls.name = cls'.name) : c = d := by
  have hplace : c.place = d.place := by
    have hc' := mem_of_lookup (classAt_ok.1 (h.classMade hc).name)
    have hd' := mem_of_lookup (classAt_ok.1 (h.classMade hd).name)
    exact congrArg Prod.fst (List.inj_on_of_nodup_map h.names hc' hd' hname)
  have hmem : ∀ {c cls}, m.HasClass env.resolution c cls → c ∈ env.resolution.containers :=
    fun hcls =>
    Resolution.mem_classOrder.1 (List.of_mem_zip hcls).1
  exact List.inj_on_of_nodup_map h.places (hmem hc) (hmem hd) hplace

/-- A container has one class. -/
theorem class_inj (h : BuiltApart env m) (hc : m.HasClass env.resolution c cls)
    (hc' : m.HasClass env.resolution c cls') : cls = cls' := by
  have hname := Except.ok.inj ((h.classMade hc).name.symm.trans (h.classMade hc').name)
  exact List.inj_on_of_nodup_map h.nodup_classes (List.of_mem_zip hc).2
    (List.of_mem_zip hc').2 hname

/-- The bases of the class of a container are the classes of the container's types. -/
theorem mem_basesOf_iff (h : BuiltApart env m) {w : Web} (hr : w.Resolves env.resolution)
    (hcls : m.HasClass env.resolution c cls) {base : ResourceClass} :
    base ∈ m.basesOf cls ↔ ∃ outer, c.HasType env.resolution outer ∧
      m.HasClass env.resolution outer base := by
  obtain ⟨hbases, hnames⟩ := basesOf_ok (h.classMade hcls).bases
  rw [ClientModule.basesOf, List.mem_filterMap]
  constructor
  · rintro ⟨name, hname, hbase⟩
    obtain ⟨hmem, rfl⟩ := (ClientModule.classNamed?_eq_some h.nodup_classes).1 hbase
    obtain ⟨res, hres, ref, href, hclass⟩ := hnames base.name hname
    obtain ⟨type, htype, hclassAt⟩ := Result.bind_ok.1 hclass
    obtain ⟨outer, houter, hplace, -⟩ :=
      Web.container_of_resourceType hr (Result.mapError_ok.1 htype)
    obtain ⟨base', hbase'⟩ := h.exists_class houter
    have hname' := (h.classMade hbase').name
    rw [hplace, hclassAt, Except.ok.injEq] at hname'
    obtain rfl : base = base' :=
      List.inj_on_of_nodup_map h.nodup_classes hmem (List.of_mem_zip hbase').2 hname'
    exact ⟨outer, ⟨res, ref, type, hres, href, Result.mapError_ok.1 htype, houter, hplace⟩, hbase'⟩
  · rintro ⟨outer, ⟨res, ref, type, hres, href, htype, -, hplace⟩, hbase⟩
    obtain ⟨name, hname, hclass⟩ := hbases res hres ref href
    obtain ⟨type', htype', hclassAt⟩ := Result.bind_ok.1 hclass
    obtain rfl : type = type' := Except.ok.inj (htype.symm.trans (Result.mapError_ok.1 htype'))
    have hname' := (h.classMade hbase).name
    rw [hplace, hclassAt, Except.ok.injEq] at hname'
    exact ⟨name, hname,
      (ClientModule.classNamed?_eq_some h.nodup_classes).2 ⟨(List.of_mem_zip hbase).2, hname'.symm⟩⟩

/-- The class of a type has no bases. -/
theorem bases_of_hasType (h : BuiltApart env m) {w : Web} (hr : w.Resolves env.resolution)
    (htype : c.HasType env.resolution d) (hcls : m.HasClass env.resolution d cls) :
    cls.bases = [] := by
  obtain ⟨res, ref, type, -, -, href, hd, hplace⟩ := htype
  obtain ⟨outer, houter, hplace', hholder⟩ := Web.container_of_resourceType hr href
  obtain rfl : outer = d := List.inj_on_of_nodup_map h.places houter hd (hplace'.trans hplace.symm)
  refine List.eq_nil_iff_forall_not_mem.2 fun name hname => ?_
  obtain ⟨res', hres', -⟩ := (basesOf_ok (h.classMade hcls).bases).2 name hname
  rw [hholder] at hres'
  cases hres'

/-- The classes in which a name is looked for are those of a container and of its types. -/
theorem mem_searched_iff (h : BuiltApart env m) {w : Web} (hr : w.Resolves env.resolution)
    (hcls : m.HasClass env.resolution c cls) {found : ResourceClass} :
    found ∈ cls :: m.basesOf cls ↔
      ∃ d, (d = c ∨ c.HasType env.resolution d) ∧ m.HasClass env.resolution d found := by
  rw [List.mem_cons, h.mem_basesOf_iff hr hcls]
  constructor
  · rintro (rfl | ⟨d, htype, hfound⟩)
    · exact ⟨c, Or.inl rfl, hcls⟩
    · exact ⟨d, Or.inr htype, hfound⟩
  · rintro ⟨d, rfl | htype, hfound⟩
    · exact Or.inl (h.class_inj hfound hcls)
    · exact Or.inr ⟨d, htype, hfound⟩

/-- A container offers the names that its class has itself. -/
theorem offers_iff (h : BuiltApart env m) (hcls : m.HasClass env.resolution c cls) {name : String} :
    m.Offers env.resolution env.config.style c name ↔ name ∈ cls.callables := by
  obtain ⟨methods, scope, hmethods, hops, -⟩ := (h.classMade hcls).members
  have hmethods := Result.mapError_ok.1 hmethods
  rw [ResourceClass.callables, operations_spelled rfl hops, List.mem_append,
    List.mem_map, List.mem_map]
  refine or_congr ⟨?_, fun hname => ⟨methods, hmethods, hname⟩⟩
    ⟨?_, fun hname => ⟨cls, hcls, hname⟩⟩
  · rintro ⟨methods', hmethods', hname⟩
    rwa [Except.ok.inj (hmethods.symm.trans hmethods')]
  · rintro ⟨cls', hcls', hname⟩
    rwa [h.class_inj hcls hcls']

end BuiltApart

theorem builtApart_of_gives {r : Resolution} {w : Web} (hr : w.Resolves r) {config : ClientConfig}
    {table : TypeTable} {s t : List Notice} (hu : Gives (unify r config) s table t)
    {s' t' : List Notice} (hm : Gives (buildModule r table config) s' m t') :
    ∃ classNames, BuiltApart ⟨r, table, config, classNames, r.containers⟩ m := by
  obtain ⟨classNames, hbuilt⟩ := built_of_yields hm.yields
  obtain ⟨given, htakes, -⟩ := (unify_names hu.yields).given
  obtain ⟨⟨last, htaken⟩, -⟩ :=
    claimClasses_takes (htakes.reserved.trans (moduleScope_reserved config)) hbuilt.classNames
  exact ⟨classNames, hbuilt, Web.nodup_places hr, htaken.nodup⟩

end Build

/-- All that the class of a resource inherits can be called on it, if and only if no name is offered
by two of the resource and its types. The classes of its types, which are its bases, have no bases
themselves. -/
theorem inherited_kept_iff {w : Web} {fuel : Nat} {r : Resolution} {n n' : List Notice}
    (hr : Gives (resolveWith w.loading w.strict fuel w.app) n r n') {config : ClientConfig}
    {table : TypeTable} {s t : List Notice} (hu : Gives (unify r config) s table t)
    {m : ClientModule} {s' t' : List Notice} (hm : Gives (buildModule r table config) s' m t')
    {c : Container} (hc : c ∈ r.containers) : ∃ cls, m.HasClass r c cls ∧
      (∀ base ∈ m.basesOf cls, base.bases = [] ∧ ∃ outer, c.HasType r outer ∧
        m.HasClass r outer base) ∧
      (m.KeepsInherited cls ↔ ∀ d d', d = c ∨ c.HasType r d → d' = c ∨ c.HasType r d' → d ≠ d' →
        ∀ name, m.Offers r config.style d name → ¬m.Offers r config.style d' name) := by
  have hresolves := Web.resolves_of_gives hr
  obtain ⟨classNames, h⟩ := Build.builtApart_of_gives hresolves hu hm
  obtain ⟨cls, hcls⟩ := h.exists_class hc
  refine ⟨cls, hcls, fun base hbase => ?_, ?_⟩
  · obtain ⟨outer, htype, hclass⟩ := (h.mem_basesOf_iff hresolves hcls).1 hbase
    exact ⟨h.bases_of_hasType hresolves htype hclass, outer, htype, hclass⟩
  rw [ClientModule.keepsInherited_iff]
  constructor
  · intro hkept d d' hd hd' hne name hoffers hoffers'
    have hmem : ∀ {d}, d = c ∨ c.HasType r d → d ∈ r.containers := by
      rintro d (rfl | ⟨-, -, -, -, -, -, hd, -⟩)
      · exact hc
      · exact hd
    obtain ⟨x, hx⟩ := h.exists_class (hmem hd)
    obtain ⟨x', hx'⟩ := h.exists_class (hmem hd')
    refine hkept x ((h.mem_searched_iff hresolves hcls).2 ⟨d, hd, hx⟩) x'
      ((h.mem_searched_iff hresolves hcls).2 ⟨d', hd', hx'⟩) ?_ name
      ((h.offers_iff hx).1 hoffers) ((h.offers_iff hx').1 hoffers')
    rintro rfl
    exact hne (h.container_inj hx hx' rfl)
  · intro hapart x hx x' hx' hne name hname hname'
    obtain ⟨d, hd, hclass⟩ := (h.mem_searched_iff hresolves hcls).1 hx
    obtain ⟨d', hd', hclass'⟩ := (h.mem_searched_iff hresolves hcls).1 hx'
    refine hapart d d' hd hd' ?_ name ((h.offers_iff hclass).2 hname)
      ((h.offers_iff hclass').2 hname')
    rintro rfl
    exact hne (h.class_inj hclass hclass')

/-- A container whose one method stands in it offers the name of its label. -/
theorem ClientModule.offers_of_inline {m : ClientModule} {r : Resolution}
    {style : NamingStyle} {c : Container} {method : Method} {name : String}
    (h : c.here.holder.methods = [.inline method]) (hname : style.spelled method.label = name) :
    m.Offers r style c name := by
  have hmethods : r.methods c = .ok [⟨method, c.place.child (.method 0)⟩] := by
    rw [Resolution.methods, h]
    rfl
  exact Or.inl ⟨_, hmethods, _, List.mem_cons_self, hname⟩

/-- A resource that has a method with the verb of its type's. -/
def repeatedItem : Resource :=
  ⟨none, some "i", [⟨.resourceType, "http://h/d#item", ""⟩], formMediaType, [],
    [.inline ⟨"GET", none, none, [⟨[200], [], [], []⟩], []⟩], [], []⟩

/-- A description of this resource and its type. -/
def repeatedItems : Application :=
  ⟨"http://h/d", [], [], [⟨some "http://h/", [repeatedItem]⟩],
    [⟨"item", formMediaType, [], [.inline plainGet], [], []⟩], [], [], []⟩

/-- The operation of the type is hidden by that of `repeatedItem`. -/
theorem inherited_kept_iff_repeatedItems :
    let w : Web := ⟨repeatedItems, none, false⟩
    ∃ r n table t m t', Gives (resolveWith w.loading w.strict 4 w.app) [] r n ∧
      Gives (unify r {}) [] table t ∧ Gives (buildModule r table {}) t m t' ∧
      ∃ c ∈ r.containers, c.here.holder = .resource repeatedItem ∧
        ∃ cls, m.HasClass r c cls ∧ ¬m.KeepsInherited cls := by
  intro w
  let ref : Reference := ⟨.resourceType, "http://h/d#item", ""⟩
  obtain ⟨r, n, hr, hcheck⟩ :=
    exists_gives_of_any (x := resolveWith w.loading w.strict 4 w.app) (s := [])
    (p := fun r => (Id.run ((Build.typedClient r {}).run.run [])).1.isOk &&
      (r.resourceType ref).toOption.any fun t => t.value.methods = [.inline plainGet])
    (by decide +kernel)
  obtain ⟨hbuild, htype⟩ := Bool.and_eq_true_iff.1 hcheck
  obtain ⟨⟨table, m⟩, t', hgives⟩ := exists_gives hbuild
  obtain ⟨t, hu, hm⟩ := Build.typedClient_gives hgives
  have hresolves := Web.resolves_of_gives hr
  have happ : r.app = repeatedItems := hresolves.app_eq
  let c : Container :=
    ⟨⟨.resource repeatedItem, ⟨"http://h/d", [.group 0, .resource 0]⟩, repeatedItem.segments⟩, []⟩
  have hc : c ∈ r.containers := by
    refine List.mem_append_right _ ?_
    rw [happ]
    exact List.mem_cons_self
  obtain ⟨type, href, hmethods⟩ : ∃ type, r.resourceType ref = .ok type ∧
      type.value.methods = [.inline plainGet] := by
    cases hresult : r.resourceType ref with
    | error e =>
      rw [hresult] at htype
      cases htype
    | ok type =>
      rw [hresult] at htype
      exact ⟨type, rfl, of_decide_eq_true htype⟩
  obtain ⟨outer, houter, hplace, hholder⟩ := Web.container_of_resourceType hresolves href
  have hitem : outer.here.holder.methods = [.inline plainGet] := by
    rw [hholder]
    exact hmethods
  have hoffers : m.Offers r .snake c "get" := ClientModule.offers_of_inline rfl (by decide +kernel)
  have hoffers' : m.Offers r .snake outer "get" :=
    ClientModule.offers_of_inline hitem (by decide +kernel)
  obtain ⟨cls, hcls, -, hkept⟩ := inherited_kept_iff hr hu hm hc
  refine ⟨r, n, table, t, m, t', hr, hu, hm, c, hc, rfl, cls, hcls, fun hkeeps => ?_⟩
  refine hkept.1 hkeeps c outer (Or.inl rfl)
    (Or.inr ⟨_, ref, type, rfl, List.mem_cons_self, href, houter, hplace⟩) ?_ "get" hoffers hoffers'
  rintro rfl
  cases hholder

end Wadl
