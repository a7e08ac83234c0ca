import Wadl.Client.Builder
import Wadl.Proofs.Runs

/-!
# What building goes through

Building a client claims the names of the classes and then makes its models, its classes and the
class that it begins with (`Build.Built`). A class has a name, bases and models of its own, and one
scope for its operations and its accessors (`Build.ClassMade`); an operation is drafted in four
steps (`Build.Drafted`). Whatever is proved of clients starts from these.
-/

namespace Wadl

/-- The containers in the order in which their classes stand: resource types first. -/
def Resolution.classOrder (r : Resolution) : List Container :=
  r.containers.filter (·.isType) ++ r.containers.filter (!·.isType)

theorem Resolution.classOrder_perm (r : Resolution) : r.classOrder.Perm r.containers :=
  List.filter_append_perm _ _

theorem Resolution.mem_classOrder {r : Resolution} {c : Container} :
    c ∈ r.classOrder ↔ c ∈ r.containers :=
  r.classOrder_perm.mem_iff

namespace Build

variable {env : Env}

/-! ## Modules -/

/-- What the parts of a client are made from. -/
structure Built (env : Env) (m : ClientModule) : Prop where
  classNames : claimClasses env.table.scope env.resolution.containers = .ok env.classNames
  containers : env.containers = env.resolution.containers
  enums : m.enums = env.table.enums
  models : List.Forall₂ (fun c cls => Yields (modelClass env c) cls) env.table.moduleTypes m.models
  classes : List.Forall₂ (fun c cls => Yields (resourceClass env c) cls)
    env.resolution.classOrder m.classes
  entry : Yields (entryClass env) m.entry

theorem built_of_yields {r : Resolution} {table : TypeTable}
    {config : ClientConfig} {m : ClientModule} (h : Yields (buildModule r table config) m) :
    ∃ classNames, Built ⟨r, table, config, classNames, r.containers⟩ m := by
  obtain ⟨classNames, hnames, h⟩ := h.bind
  obtain ⟨doc, -, h⟩ := h.bind
  obtain ⟨models, hmodels, h⟩ := h.bind
  obtain ⟨classes, hclasses, h⟩ := h.bind
  obtain ⟨entry, hentry, h⟩ := h.bind
  rw [← h.pure]
  exact ⟨classNames, hnames.lift, rfl, rfl, hmodels.mapM, hclasses.mapM, hentry⟩

/-- The types of a client and the client that is built with them. -/
def typedClient (r : Resolution) (config : ClientConfig) :
    Generating (TypeTable × ClientModule) := do
  let table ← unify r config
  return (table, ← buildModule r table config)

theorem typedClient_gives {r : Resolution} {config : ClientConfig} {s t' : List Notice}
    {x : TypeTable × ClientModule} (h : Gives (typedClient r config) s x t') :
    ∃ t, Gives (unify r config) s x.1 t ∧ Gives (buildModule r x.1 config) t x.2 t' := by
  obtain ⟨table, t, hu, h⟩ := gives_bind.1 h
  obtain ⟨m, t'', hm, h⟩ := gives_bind.1 h
  obtain ⟨rfl, rfl⟩ := gives_pure.1 h
  exact ⟨t, hu, hm⟩

/-! ## Names of classes -/

/-- The names of classes are claimed for containers, one after another. -/
theorem claimClasses_induct (motive : NameScope → List Container → List (Place × String) → Prop)
    (nil : ∀ scope, motive scope [] [])
    (cons : ∀ scope scope' c cs named rest, claimClass scope c = .ok ((c.place, named), scope') →
      motive scope' cs rest → motive scope (c :: cs) ((c.place, named) :: rest)) :
    ∀ {scope : NameScope} {cs : List Container} {named : List (Place × String)},
      claimClasses scope cs = .ok named → motive scope cs named := by
  intro scope cs named h
  induction cs generalizing scope named with
  | nil =>
    obtain rfl := Except.ok.inj h
    exact nil scope
  | cons c cs ih =>
    rw [claimClasses] at h
    obtain ⟨⟨x, inner⟩, hx, h⟩ := Result.bind_ok.1 h
    obtain ⟨rest, hrest, h⟩ := Result.bind_ok.1 h
    obtain rfl := Result.pure_ok.1 h
    obtain ⟨place, name⟩ := x
    obtain rfl : place = c.place := by
      have hclaim := hx
      rw [claimClass] at hclaim
      split at hclaim
      · obtain ⟨⟨given, last⟩, -, hclaim⟩ := Result.bind_ok.1 hclaim
        exact (congrArg (·.1.1) (Result.pure_ok.1 hclaim)).symm
      · exact (congrArg (·.1.1) (Result.pure_ok.1 hclaim)).symm
    exact cons scope inner c cs name rest hx (ih hrest)

theorem claimClasses_places {scope : NameScope} {cs : List Container}
    {named : List (Place × String)} (h : claimClasses scope cs = .ok named) :
    named.map (·.1) = cs.map (·.place) := by
  refine claimClasses_induct (fun _ cs named => named.map (·.1) = cs.map (·.place)) ?_ ?_ h
  · exact fun _ => rfl
  · intro scope scope' c cs named rest _ ih
    rw [List.map_cons, List.map_cons, ih]

theorem classAt_ok {place : Place} {name : String} :
    classAt env place = .ok name ↔ env.classNames.lookup place = some name := by
  rw [classAt]
  cases env.classNames.lookup place <;> simp

/-! ## Classes -/

/-- What the parts of the class of a container are made from. -/
structure ClassMade (env : Env) (c : Container) (cls : ResourceClass) : Prop where
  name : classAt env c.place = .ok cls.name
  bases : basesOf env c = .ok cls.bases
  nested : List.Forall₂ (fun t model => Yields (modelClass env t) model)
    (env.table.nestedIn c.place) cls.nested
  /-- The operations and after them the accessors take their names in one scope. -/
  members : ∃ methods scope, methodsOf env c = .ok methods ∧
    Yields (operations env c cls.name methods (newScope env ("class " ++ cls.name)) methods)
      (cls.operations, scope) ∧
    Yields (namedAccessors env scope (withResources .own (childrenOf env c))) cls.accessors

theorem classMade_of_yields {c : Container} {cls : ResourceClass}
    (h : Yields (resourceClass env c) cls) : ClassMade env c cls := by
  obtain ⟨name, hname, h⟩ := h.bind
  obtain ⟨bases, hbases, h⟩ := h.bind
  obtain ⟨nested, hnested, h⟩ := h.bind
  obtain ⟨methods, hmethods, h⟩ := h.bind
  obtain ⟨⟨ops, scope⟩, hops, h⟩ := h.bind
  obtain ⟨accessors, haccessors, h⟩ := h.bind
  obtain ⟨doc, -, h⟩ := h.bind
  rw [← h.pure]
  exact ⟨hname.lift, hbases.lift, hnested.mapM, methods, scope, hmethods.lift, hops, haccessors⟩

namespace Built

variable {m : ClientModule}

theorem exists_classMade (h : Built env m) {cls : ResourceClass} (hcls : cls ∈ m.classes) :
    ∃ c, ClassMade env c cls := by
  obtain ⟨c, -, hyields⟩ := exists_left_of_forall₂ h.classes hcls
  exact ⟨c, classMade_of_yields hyields⟩

/-- Models stand in the module or in a class, and all are made in the same way. -/
theorem exists_modelClass (h : Built env m) {model : ModelClass}
    (hmodel : model ∈ m.models ++ m.classes.flatMap (·.nested)) :
    ∃ t ∈ env.table.types, Yields (modelClass env t) model := by
  rcases List.mem_append.1 hmodel with hmodel | hmodel
  · obtain ⟨t, ht, hyields⟩ := exists_left_of_forall₂ h.models hmodel
    exact ⟨t, List.mem_of_mem_filter ht, hyields⟩
  · obtain ⟨cls, hcls, hmodel⟩ := List.mem_flatMap.1 hmodel
    obtain ⟨c, hmade⟩ := h.exists_classMade hcls
    obtain ⟨t, ht, hyields⟩ := exists_left_of_forall₂ hmade.nested hmodel
    exact ⟨t, List.mem_of_mem_filter ht, hyields⟩

theorem exists_entryAccessors (h : Built env m) :
    ∃ scope wanted, Yields (namedAccessors env scope wanted) m.entry.accessors := by
  obtain ⟨accessors, haccessors, hentry⟩ := h.entry.bind
  obtain ⟨doc, -, hentry⟩ := hentry.bind
  rw [← hentry.pure]
  exact ⟨_, _, haccessors⟩

end Built

/-- A model has a field for each param of its type, and the names are claimed in a scope of its
own. -/
theorem modelClass_yields {t : CanonicalType} {model : ModelClass}
    (h : Yields (modelClass env t) model) : model.name = t.name ∧
      modelFields env t.name
        ((newScope env ("model " ++ t.name)).reserve "model_config" "pydantic configuration")
          t.fields =
        .ok (model.fields, model.follows) := by
  obtain ⟨⟨fields, follows⟩, hfields, h⟩ := h.bind
  obtain ⟨doc, -, h⟩ := h.bind
  rw [← h.pure]
  exact ⟨rfl, hfields.lift⟩

/-- Each type of a resource has a class, and these are the bases of the class of the resource. -/
theorem basesOf_ok {c : Container} {bases : List String} (h : basesOf env c = .ok bases) :
    (∀ res, c.here.holder = .resource res →
      ∀ ref ∈ res.types, ∃ name ∈ bases, classOfType env ref = .ok name) ∧
    ∀ name ∈ bases, ∃ res, c.here.holder = .resource res ∧ ∃ ref ∈ res.types,
      classOfType env ref = .ok name := by
  unfold basesOf at h
  split at h
  · rename_i t hholder
    obtain rfl := Result.pure_ok.1 h
    refine ⟨fun res hres => ?_, by simp⟩
    rw [hholder] at hres
    cases hres
  · rename_i res hholder
    obtain ⟨names, hnames, h⟩ := Result.bind_ok.1 h
    obtain rfl := Result.pure_ok.1 h
    constructor
    · rintro res' hres ref href
      obtain rfl := Holder.resource.inj (hholder.symm.trans hres)
      obtain ⟨name, hname, hclass⟩ := exists_right_of_forall₂ (Result.mapM_ok.1 hnames) href
      exact ⟨name, List.mem_eraseDups.2 hname, hclass⟩
    · intro name hname
      exact ⟨res, hholder, (Result.mem_mapM_ok hnames).1 (List.mem_eraseDups.1 hname)⟩

/-! ## Operations -/

/-- The steps in which the operation of a method is drafted: the params of its request, the
placeholders that are left, the params of the container, and the body. -/
structure Drafted (env : Env) (c : Container) (className : String) (methods : List (Placed Method))
    (m : Placed Method) (op : Operation) (left : List String) (d₁ d₂ d₃ d₄ : Draft) : Prop where
  pending_eq : pending env (c.here :: c.above) = .ok left
  request : Yields (addRequest env left c.isType m.value.label
    { scope := newScope env ("method " ++ className ++ "." ++ op.name) }
    ((m.value.request.map (·.params)).getD [])) d₁
  placeholders : Yields (addPlaceholders env left c.isType className methods d₁) d₂
  shared : Yields (addShared env left c.isType className d₂ c.here.holder.params) d₃
  body : sentBody env m d₃ = .ok (op.body, d₄)

/-- Taking a param into a draft at most marks it and supplies it. -/
theorem addParam_keeps (Inv : Draft → Prop)
    (filled : ∀ d name, Inv d → Inv { d with filled := name :: d.filled })
    (supplied : ∀ d d' p source required, Inv d →
      Yields (supply env d p source required) d' → Inv d')
    {left : List String} {isType : Bool} {d d' : Draft} {p : Param} {source : String} (hd : Inv d)
    (h : Yields (addParam env left isType d p source) d') : Inv d' := by
  rw [addParam] at h
  split at h
  · split at h
    · obtain ⟨-, -, h⟩ := h.bind
      rwa [← h.pure]
    · exact supplied _ _ _ _ _ (filled d p.name hd) h
  · split at h
    · rwa [← h.pure]
    · exact supplied _ _ _ _ _ hd h

/-- What marking and supplying a param keeps, the steps before the body keep. -/
theorem Drafted.keeps {c : Container} {className : String} {methods : List (Placed Method)}
    {m : Placed Method} {op : Operation} {left : List String} {d₁ d₂ d₃ d₄ : Draft}
    (h : Drafted env c className methods m op left d₁ d₂ d₃ d₄) (Inv : Draft → Prop)
    (start : ∀ label, Inv { scope := newScope env label })
    (filled : ∀ d name, Inv d → Inv { d with filled := name :: d.filled })
    (supplied : ∀ d d' p source required, Inv d →
      Yields (supply env d p source required) d' → Inv d') :
    Inv d₃ := by
  have hrequest : Inv d₁ := by
    refine Yields.foldlM_keeps Inv (fun d d' item _ hd hstep => ?_) (start _) h.request
    obtain ⟨p, -, hstep⟩ := hstep.bind
    exact addParam_keeps Inv filled supplied hd hstep
  have hplaceholders : Inv d₂ := by
    refine Yields.foldlM_keeps Inv (fun d d' name _ hd hstep => ?_) hrequest h.placeholders
    rw [addPlaceholder] at hstep
    split at hstep
    · rwa [← hstep.pure]
    · obtain ⟨p, -, hstep⟩ := hstep.bind
      exact addParam_keeps Inv filled supplied hd hstep
  refine Yields.foldlM_keeps Inv (fun d d' item _ hd hstep => ?_) hplaceholders h.shared
  obtain ⟨p, -, hstep⟩ := hstep.bind
  split at hstep
  · rwa [← hstep.pure]
  · exact addParam_keeps Inv filled supplied hd hstep

theorem operation_yields {c : Container} {className : String} {methods : List (Placed Method)}
    {scope scope' : NameScope} {m : Placed Method} {op : Operation}
    (h : Yields (operation env c className methods scope m) (op, scope')) :
    ∃ left d₁ d₂ d₃ d₄, Drafted env c className methods m op left d₁ d₂ d₃ d₄ ∧
      claim scope (nameOf env m.value.label)
        ("method " ++ quoted m.value.label ++ " of " ++ className) = .ok (op.name, scope') ∧
      branches env m = .ok op.branches ∧ op.verb = Case.upper m.value.name ∧ op.args = d₄.args ∧
      op.template = d₄.template ∧ op.matrix = d₄.matrix ∧ op.query = d₄.query ∧
      op.header = d₄.header := by
  obtain ⟨⟨name, inner⟩, hname, h⟩ := h.bind
  obtain ⟨left, hleft, h⟩ := h.bind
  obtain ⟨d₁, h₁, h⟩ := h.bind
  obtain ⟨d₂, h₂, h⟩ := h.bind
  obtain ⟨d₃, h₃, h⟩ := h.bind
  obtain ⟨⟨body, d₄⟩, h₄, h⟩ := h.bind
  obtain ⟨accept, -, h⟩ := h.bind
  obtain ⟨branches, hbranches, h⟩ := h.bind
  obtain ⟨doc, -, h⟩ := h.bind
  obtain ⟨rfl, rfl⟩ := Prod.mk.inj h.pure
  exact ⟨left, d₁, d₂, d₃, d₄, ⟨hleft.lift, h₁, h₂, h₃, h₄.lift⟩, hname.lift, hbranches.lift,
    rfl, rfl, rfl, rfl, rfl, rfl⟩

/-- The operations of a class are made one after another, each claiming its name in the scope that
the one before it left. -/
theorem operations_induct {c : Container} {className : String} {methods : List (Placed Method)}
    (motive : NameScope → List (Placed Method) → List Operation → NameScope → Prop)
    (nil : ∀ scope, motive scope [] [] scope)
    (cons : ∀ scope inner scope' m ms op ops,
      Yields (operation env c className methods scope m) (op, inner) →
      motive inner ms ops scope' → motive scope (m :: ms) (op :: ops) scope') :
    ∀ {scope scope' : NameScope} {ms : List (Placed Method)} {ops : List Operation},
      Yields (operations env c className methods scope ms) (ops, scope') →
      motive scope ms ops scope' := by
  intro scope scope' ms ops h
  induction ms generalizing scope ops with
  | nil =>
    rw [operations] at h
    obtain ⟨rfl, rfl⟩ := Prod.mk.inj h.pure
    exact nil scope
  | cons m ms ih =>
    rw [operations] at h
    obtain ⟨⟨op, inner⟩, hop, h⟩ := h.bind
    obtain ⟨⟨rest, last⟩, hrest, h⟩ := h.bind
    obtain ⟨rfl, rfl⟩ := Prod.mk.inj h.pure
    exact cons scope inner last m ms op rest hop (ih hrest)

/-- The operations of a class are made one for each method. -/
theorem operations_forall₂ {c : Container} {className : String} {methods ms : List (Placed Method)}
    {scope scope' : NameScope} {ops : List Operation}
    (h : Yields (operations env c className methods scope ms) (ops, scope')) :
    List.Forall₂ (fun m op => ∃ inner inner',
      Yields (operation env c className methods inner m) (op, inner')) ms ops := by
  refine operations_induct (fun _ ms ops _ => List.Forall₂ (fun m op => ∃ inner inner',
    Yields (operation env c className methods inner m) (op, inner')) ms ops) (fun _ => .nil) ?_ h
  exact fun scope inner scope' m ms op ops hop ih => .cons ⟨scope, inner, hop⟩ ih

/-! ## Accessors -/

/-- What the parts of an accessor are made from. -/
theorem accessor_yields {scope scope' : NameScope} {child : Container}
    {res : Resource} {base : UrlBase} {wanted : String} {a : Accessor}
    (h : Yields (accessor env scope child res base wanted) (a, scope')) :
    (∃ source, claim scope wanted source = .ok (a.name, scope') ∨
      scope.claimUnique wanted source = (a.name, scope')) ∧
    classAt env child.place = .ok a.target ∧
    ∃ decls, templateDecls env (child.here :: child.above) = .ok decls ∧
      placeholderArgs env decls (resourceLabel res)
        (newScope env ("accessor " ++ a.name)) res.placeholders = .ok a.args := by
  unfold accessor at h
  split at h
  all_goals
    obtain ⟨⟨name, inner⟩, hname, h⟩ := h.bind
    obtain ⟨decls, hdecls, h⟩ := h.bind
    obtain ⟨args, hargs, h⟩ := h.bind
    obtain ⟨target, htarget, h⟩ := h.bind
    obtain ⟨doc, -, h⟩ := h.bind
    obtain ⟨rfl, rfl⟩ := Prod.mk.inj h.pure
    refine ⟨⟨"resource " ++ quoted (resourceLabel res), ?_⟩, htarget.lift, decls,
      hdecls.lift, hargs.lift⟩
  · exact Or.inl hname.lift
  · exact Or.inr hname.pure

theorem accessors_induct
    (motive : NameScope → List ((Container × Resource × UrlBase) × String) → List Accessor → Prop)
    (nil : ∀ scope, motive scope [] [])
    (cons : ∀ scope scope' child res base name rest a as,
      Yields (accessor env scope child res base name) (a, scope') → motive scope' rest as →
      motive scope (((child, res, base), name) :: rest) (a :: as)) :
    ∀ {scope : NameScope} {wanted : List ((Container × Resource × UrlBase) × String)}
      {as : List Accessor}, Yields (accessors env scope wanted) as → motive scope wanted as := by
  intro scope wanted as h
  induction wanted generalizing scope as with
  | nil =>
    rw [accessors] at h
    rw [← h.pure]
    exact nil scope
  | cons x rest ih =>
    obtain ⟨⟨child, res, base⟩, name⟩ := x
    rw [accessors] at h
    obtain ⟨⟨a, scope'⟩, ha, h⟩ := h.bind
    obtain ⟨as', has, h⟩ := h.bind
    rw [← h.pure]
    exact cons scope scope' child res base name rest a as' ha (ih has)

theorem mem_withResources {base : UrlBase} {cs : List Container}
    {x : Container × Resource × UrlBase} (h : x ∈ withResources base cs) :
    x.1 ∈ cs ∧ x.1.here.holder = .resource x.2.1 := by
  obtain ⟨c, hc, hx⟩ := List.mem_filterMap.1 h
  obtain ⟨res, hres, rfl⟩ := Option.map_eq_some_iff.1 hx
  refine ⟨hc, ?_⟩
  unfold Holder.resource? at hres
  split at hres
  · rename_i hholder
    rw [hholder, Option.some.inj hres]
  · cases hres

/-- Each accessor of resources that stand side by side is that of one of them. -/
theorem namedAccessors_mem {scope : NameScope} {children : List (Container × Resource × UrlBase)}
    {as : List Accessor} (h : Yields (namedAccessors env scope children) as) :
    ∀ a ∈ as, ∃ x ∈ children, ∃ inner inner' wanted,
      Yields (accessor env inner x.1 x.2.1 x.2.2 wanted) (a, inner') := by
  have hall : ∀ a ∈ as, ∃ x ∈ children.zip (accessorNames env (children.map (·.2.1))),
      ∃ inner inner', Yields (accessor env inner x.1.1 x.1.2.1 x.1.2.2 x.2) (a, inner') := by
    refine accessors_induct (fun _ wanted as => ∀ a ∈ as, ∃ x ∈ wanted, ∃ inner inner',
      Yields (accessor env inner x.1.1 x.1.2.1 x.1.2.2 x.2) (a, inner')) (by simp) ?_ h
    intro scope scope' child res base name rest a as ha ih
    refine List.forall_mem_cons.2 ⟨⟨_, List.mem_cons_self, scope, scope', ha⟩, fun a ha => ?_⟩
    obtain ⟨x, hx, hmade⟩ := ih a ha
    exact ⟨x, List.mem_cons_of_mem _ hx, hmade⟩
  intro a ha
  obtain ⟨⟨x, wanted⟩, hx, inner, inner', hmade⟩ := hall a ha
  exact ⟨x, (List.of_mem_zip hx).1, inner, inner', wanted, hmade⟩

end Build

end Wadl
