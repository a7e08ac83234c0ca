import Wadl.Proofs.Client.Placeholders
import Wadl.Proofs.Client.TypeNames
import Wadl.Proofs.Resolution.Walk

/-!
# Enums of params

Enums are collected before a client is built: from the fields of the types, and from the params of
all containers and of their methods. The parts of a client ask for them in other ways, such as for
the params that are declared around a resource; `Build.Types` says for which params they do so. Each
of these with options has an enum of its own values (`hasEnum_of_types`), and `enums_usable` says
that the enums and their members can be told apart by their names.
-/

namespace Wadl

open Unify

/-! ## What containers hold -/

/-- The resources and resource types of a resolved description, at any depth. -/
inductive Resolution.Holds (r : Resolution) : Holder → Prop where
  | resource {group : ResourceGroup} {res : Resource} (group_mem : group ∈ r.app.resources)
      (below : res ∈ flattenList group.resources) : Holds r (.resource res)
  | type {t : Placed ResourceType} (type_mem : t ∈ r.resourceTypes) : Holds r (.type t.value)
  | inType {t : Placed ResourceType} {res : Resource} (type_mem : t ∈ r.resourceTypes)
      (below : res ∈ flattenList t.value.resources) : Holds r (.resource res)

mutual

/-- What holds of all resources and of what stands around them holds of all stations of their
containers. -/
theorem stations_containers {P : Holder → Prop} {above : List Station}
    (habove : ∀ s ∈ above, P s.holder) (inherited : List String) (place : Place) :
    ∀ r : Resource, (∀ res ∈ r.flatten, P (.resource res)) →
      ∀ c ∈ r.containers above inherited place, ∀ s ∈ c.here :: c.above, P s.holder
  | ⟨id, path, types, queryType, params, methods, resources, docs⟩, h, c, hc => by
    rw [Resource.flatten, List.forall_mem_cons] at h
    rw [Resource.containers] at hc
    rcases List.mem_cons.1 hc with rfl | hc
    · exact List.forall_mem_cons.2 ⟨h.1, habove⟩
    · exact stations_containersBelow (List.forall_mem_cons.2 ⟨h.1, habove⟩) _ place
        0 resources h.2 c hc

theorem stations_containersBelow {P : Holder → Prop} {above : List Station}
    (habove : ∀ s ∈ above, P s.holder) (inherited : List String) (place : Place) (n : Nat) :
    ∀ rs : List Resource, (∀ res ∈ flattenList rs, P (.resource res)) →
      ∀ c ∈ containersBelow above inherited place n rs, ∀ s ∈ c.here :: c.above, P s.holder
  | [], _, c, hc => by simp [containersBelow] at hc
  | r :: rs, h, c, hc => by
    rw [flattenList, List.forall_mem_append] at h
    rw [containersBelow] at hc
    rcases List.mem_append.1 hc with hc | hc
    · exact stations_containers habove inherited _ r h.1 c hc
    · exact stations_containersBelow habove inherited place (n + 1) rs h.2 c hc

end

namespace Resolution

variable {r : Resolution}

/-- A container and all around it are resources and resource types of the description. -/
theorem holds_of_mem {c : Container} (hc : c ∈ r.containers) :
    ∀ s ∈ c.here :: c.above, r.Holds s.holder := by
  rcases List.mem_append.1 hc with hc | hc
  · obtain ⟨t, ht, hc⟩ := List.mem_flatMap.1 hc
    rw [ResourceType.containers] at hc
    rcases List.mem_cons.1 hc with rfl | hc
    · exact List.forall_mem_singleton.2 (.type ht)
    · exact stations_containersBelow (List.forall_mem_singleton.2 (.type ht)) _ _ _ _
        (fun _ => .inType ht) c hc
  · obtain ⟨⟨group, n⟩, hgroup, hc⟩ := List.mem_flatMap.1 hc
    have hmem : group ∈ r.app.resources := List.mem_of_getElem? (getElem?_of_mem_zipIdx hgroup)
    exact stations_containersBelow (List.forall_mem_nil _) _ _ _ _ (fun _ => .resource hmem) c hc

/-- Each resource and each resource type is a container. -/
theorem Holds.exists_container {holder : Holder} (h : r.Holds holder) :
    ∃ c ∈ r.containers, c.here.holder = holder := by
  have hbelow : ∀ {t : Placed ResourceType}, t ∈ r.resourceTypes →
      ∀ c ∈ t.value.containers t.place, c ∈ r.containers :=
    fun ht c hc => List.mem_append_left _ (List.mem_flatMap.2 ⟨_, ht, hc⟩)
  cases h with
  | @resource group res hgroup hres =>
    have hall : Holder.resource res ∈ r.app.resourceContainers.map (·.here.holder) := by
      rw [r.app.holders_resourceContainers, r.app.allResources_eq, flattenList_flatMap]
      exact List.mem_map_of_mem (List.mem_flatMap.2 ⟨group, hgroup, hres⟩)
    obtain ⟨c, hc, hholder⟩ := List.mem_map.1 hall
    exact ⟨c, List.mem_append_right _ hc, hholder⟩
  | @type t ht => exact ⟨_, hbelow ht _ List.mem_cons_self, rfl⟩
  | @inType t res ht hres =>
    have hall := List.mem_map_of_mem (f := Holder.resource) hres
    rw [← holders_containersBelow [⟨.type t.value, t.place, [t.value.id]⟩]
      [t.value.id] t.place 0] at hall
    obtain ⟨c, hc, hholder⟩ := List.mem_map.1 hall
    exact ⟨c, hbelow ht c (List.mem_cons_of_mem _ hc), hholder⟩

end Resolution

/-! ## What the search for enums comes by -/

/-- The items for the params of a resource or a resource type and for those of the requests of its
methods. -/
inductive Resolution.Lists (r : Resolution) (holder : Holder) (item : ParamItem) : Prop where
  | shared (item_mem : item ∈ holder.params) : Lists r holder item
  | requested {mi : MethodItem} {place : Place} {m : Placed Method} {request : Request}
      (method_mem : mi ∈ holder.methods) (found : r.method place mi = .ok m)
        (takes : m.value.request = some request)
      (item_mem : item ∈ request.params) : Lists r holder item

/-- A table has an enum for a param. -/
def HasEnum (q : Param) (t : TypeTable) : Prop := (t.enumFor? q).isSome = true

section Reaches

variable {r : Resolution} {t t' : TypeTable} {q : Param}

theorem hasEnum_iff (hoptions : q.options ≠ []) :
    HasEnum q t ↔ ∃ e ∈ t.enums, e.param = q.name ∧ e.values = q.options.map (·.value) := by
  rw [HasEnum, TypeTable.enumFor?, if_neg (by rwa [List.isEmpty_iff]), List.find?_isSome]
  simp only [decide_eq_true_eq]

variable (hoptions : q.options ≠ [])
include hoptions

/-- An enum that is there stays. -/
theorem addEnum_hasEnum {context : String} {p : Param} (ht : HasEnum q t)
    (h : addEnum context t p = .ok t') : HasEnum q t' := by
  rcases addEnum_cases h with ⟨rfl, -⟩ | ⟨-, scope, e, -, -, -, rfl⟩
  · exact ht
  · obtain ⟨e', he', hmade⟩ := (hasEnum_iff hoptions).1 ht
    exact (hasEnum_iff hoptions).2 ⟨e', List.mem_append_left _ he', hmade⟩

/-- A step on a param brings about its enum. -/
theorem addEnum_reaches {context : String} (h : addEnum context t q = .ok t') : HasEnum q t' := by
  rcases addEnum_cases h with ⟨rfl, hnone | hsome⟩ | ⟨-, scope, e, hname, hvalues, -, rfl⟩
  · exact absurd hnone hoptions
  · exact hsome
  · exact (hasEnum_iff hoptions).2
      ⟨e, List.mem_append_right _ (List.mem_singleton_self e), hname, hvalues⟩

theorem addEnums_reaches {context : String} {items : List ParamItem} {item : ParamItem}
    (hitem : item ∈ items) (hq : r.param item = .ok q) (h : addEnums r context t items = .ok t') :
    HasEnum q t' := by
  refine Result.foldlM_reaches (HasEnum q) (fun u u' _ hu hstep => ?_)
    (fun u u' hstep => ?_) hitem h
  · obtain ⟨p, -, hstep⟩ := Result.bind_ok.1 hstep
    exact addEnum_hasEnum hoptions hu hstep
  · obtain ⟨p, hp, hstep⟩ := Result.bind_ok.1 hstep
    obtain rfl := Except.ok.inj (hq.symm.trans (Result.mapError_ok.1 hp))
    exact addEnum_reaches hoptions hstep

theorem addMethodEnums_reaches {c : Container} {m : Method} {request : Request}
    (hrequest : m.request = some request) {item : ParamItem} (hitem : item ∈ request.params)
    (hq : r.param item = .ok q) (h : addMethodEnums r c t m = .ok t') : HasEnum q t' := by
  unfold addMethodEnums at h
  rw [hrequest] at h
  obtain ⟨u, hu, h⟩ := Result.bind_ok.1 h
  refine Result.foldlM_keeps (HasEnum q) (fun v v' response _ hv hstep => ?_)
    (addEnums_reaches hoptions hitem hq hu) h
  exact addEnums_keeps (fun _ _ _ => addEnum_hasEnum hoptions) hv hstep

/-- The step on a container brings about the enums of its params and those of the requests of its
methods. -/
theorem addContainerEnums_reaches {c : Container} {item : ParamItem}
    (hitem : r.Lists c.here.holder item) (hq : r.param item = .ok q)
    (h : addContainerEnums r t c = .ok t') : HasEnum q t' := by
  obtain ⟨u, hu, h⟩ := Result.bind_ok.1 h
  obtain ⟨ms, hms, h⟩ := Result.bind_ok.1 h
  have hkeep : ∀ (v v' : TypeTable) (m : Placed Method), HasEnum q v →
      addMethodEnums r c v m.value = .ok v' → HasEnum q v' :=
    fun v v' m hv hstep => addMethodEnums_keeps (fun _ _ _ _ => addEnum_hasEnum hoptions) hv hstep
  cases hitem with
  | shared hitem =>
    exact Result.foldlM_keeps (HasEnum q) (fun v v' m _ => hkeep v v' m)
      (addEnums_reaches hoptions hitem hq hu) h
  | @requested mi place m request hmi hm hrequest hitem =>
    -- the method is among those of the container, wherever it stands
    obtain ⟨n, hn⟩ := List.getElem?_of_mem hmi
    obtain ⟨m', hm', hmethod⟩ :=
      exists_right_of_forall₂ (Result.mapM_ok.1 (Result.mapError_ok.1 hms))
      (List.mk_mem_zipIdx_iff_getElem?.2 hn)
    have hvalue : m'.value = m.value := by
      cases mi with
      | inline m₀ => rw [← Except.ok.inj hmethod, ← Except.ok.inj hm]
      | ref ref => rw [Except.ok.inj (hmethod.symm.trans hm)]
    refine Result.foldlM_reaches (HasEnum q) hkeep (fun v v' hstep => ?_) hm' h
    exact addMethodEnums_reaches hoptions (hvalue ▸ hrequest) hitem hq hstep

end Reaches

/-- Each field of a type with options has an enum. -/
theorem enumFor?_isSome {r : Resolution} {config : ClientConfig} {table : TypeTable}
    (h : Yields (unify r config) table) {c : CanonicalType} (hc : c ∈ table.types) {q : Param}
    (hq : q ∈ c.fields) (hoptions : q.options ≠ []) : (table.enumFor? q).isSome = true := by
  obtain ⟨scope, hcollect⟩ := unify_collects h
  obtain ⟨u, hu, hcollect⟩ := Result.bind_ok.1 hcollect
  have hkeep : ∀ context t t' p, HasEnum q t → addEnum context t p = .ok t' → HasEnum q t' :=
    fun _ _ _ _ => addEnum_hasEnum hoptions
  have hstart : HasEnum q u := by
    refine Result.foldlM_reaches (HasEnum q) (fun t t' d ht hd => ?_) (fun t t' hd => ?_) hc hu
    · exact Result.foldlM_keeps (HasEnum q) (fun v v' p _ => hkeep d.name v v' p) ht hd
    · exact Result.foldlM_reaches (HasEnum q) (hkeep c.name)
        (fun _ _ => addEnum_reaches hoptions) hq hd
  exact addContainersEnums_keeps (P := fun _ => True) (fun _ _ => ⟨trivial, fun _ => trivial⟩)
    (fun context _ => hkeep context) hstart hcollect

/-- Each param with options of a resource, of a resource type or of a request of their methods has
an enum. -/
theorem enumFor?_isSome_of_holds {r : Resolution} {config : ClientConfig} {table : TypeTable}
    (h : Yields (unify r config) table) {holder : Holder}
    (hholds : r.Holds holder) {item : ParamItem} (hitem : r.Lists holder item) {q : Param}
    (hq : r.param item = .ok q) (hoptions : q.options ≠ []) : (table.enumFor? q).isSome = true := by
  obtain ⟨scope, hcollect⟩ := unify_collects h
  obtain ⟨u, -, hcollect⟩ := Result.bind_ok.1 hcollect
  obtain ⟨c, hc, rfl⟩ := hholds.exists_container
  refine Result.foldlM_reaches (HasEnum q) (fun v v' d hv hstep => ?_)
    (fun v v' hstep => addContainerEnums_reaches hoptions hitem hq hstep) hc hcollect
  have hone : [d].foldlM (addContainerEnums r) v = .ok v' := by
    rw [List.foldlM_cons, hstep]
    rfl
  exact addContainersEnums_keeps (P := fun _ => True) (fun _ _ => ⟨trivial, fun _ => trivial⟩)
    (fun _ _ _ _ _ => addEnum_hasEnum hoptions) hv hone

/-! ## Params whose values have a type -/

namespace Build

variable {env : Env}

/-- The params for whose values the parts of a client have types: those of the fields of its models,
those of resources and resource types at any depth, those of the requests of their methods, those
that are chosen for the arguments of an accessor, and those that are chosen for placeholders that no
accessor fills. -/
inductive Types (env : Env) : Param → Prop where
  | field {c : CanonicalType} {p : Param} (type_mem : c ∈ env.table.types)
      (field_mem : p ∈ c.fields) : Types env p
  | listed {holder : Holder} {item : ParamItem} {p : Param} (holds : env.resolution.Holds holder)
      (lists : env.resolution.Lists holder item) (names : env.resolution.param item = .ok p) :
        Types env p
  | accessor {c : Container} {decls : List Param} {name : String} {p : Param}
      (container_mem : c ∈ env.resolution.containers)
        (declared : templateDecls env (c.here :: c.above) = .ok decls)
      (chosen : declOf? decls name = some p) : Types env p
  | placeholder {c : Container} {ms : List (Placed Method)} {name : String} {p : Param}
      (container_mem : c ∈ env.resolution.containers) (methods : methodsOf env c = .ok ms)
      (chosen : placeholderDecl env ms name = .ok p) : Types env p

/-- What is chosen for a placeholder is a param of a request, or has no options. -/
theorem placeholderDecl_requested {c : Container} {ms : List (Placed Method)}
    {name : String} {p : Param} (hms : methodsOf env c = .ok ms)
    (h : placeholderDecl env ms name = .ok p) (hoptions : p.options ≠ []) :
    ∃ item, env.resolution.Lists c.here.holder item ∧ env.resolution.param item = .ok p := by
  obtain ⟨found, hfound, h⟩ := Result.bind_ok.1 h
  obtain rfl := Result.pure_ok.1 h
  cases found with
  | none => exact absurd rfl hoptions
  | some p =>
    obtain ⟨item, hitem, hp⟩ := exists_item_of_findTemplate? hfound
    obtain ⟨m, hm, hitem⟩ := List.mem_flatMap.1 hitem
    obtain ⟨⟨mi, n⟩, hmi, hmethod⟩ :=
      exists_left_of_forall₂ (Result.mapM_ok.1 (Result.mapError_ok.1 hms)) hm
    have hmem : mi ∈ c.here.holder.methods := List.mem_of_getElem? (getElem?_of_mem_zipIdx hmi)
    cases hrequest : m.value.request with
    | none => simp [hrequest] at hitem
    | some request =>
      rw [hrequest] at hitem
      exact ⟨item, .requested hmem hmethod hrequest hitem, hp⟩

/-- Wherever a client has a type for the values of a param with options, there is an enum. -/
theorem hasEnum_of_types (h : Yields (unify env.resolution env.config) env.table)
    {p : Param} (hp : Types env p) (hoptions : p.options ≠ []) :
    (env.table.enumFor? p).isSome = true := by
  cases hp with
  | field hc hfield => exact enumFor?_isSome h hc hfield hoptions
  | listed hholds hitem hnames => exact enumFor?_isSome_of_holds h hholds hitem hnames hoptions
  | accessor hc hdeclared hchosen =>
    obtain ⟨ps, hps, hdeclared⟩ := Result.bind_ok.1 hdeclared
    obtain rfl := Result.pure_ok.1 hdeclared
    have hmem := (List.mem_filter.1 (List.mem_of_find?_eq_some hchosen)).1
    obtain ⟨s, hs, item, hitem, hnames⟩ := (mem_scopeParams hps).1 hmem
    exact enumFor?_isSome_of_holds h (Resolution.holds_of_mem hc s hs)
      (.shared hitem) hnames hoptions
  | placeholder hc hmethods hchosen =>
    obtain ⟨item, hitem, hnames⟩ := placeholderDecl_requested hmethods hchosen hoptions
    exact enumFor?_isSome_of_holds h (Resolution.holds_of_mem hc _ List.mem_cons_self)
      hitem hnames hoptions

end Build

/-! ## Names -/

/-- The enums have names that differ from each other and from those of the types of the module. -/
theorem unify_enumNames {r : Resolution} {config : ClientConfig} {table : TypeTable}
    (h : Yields (unify r config) table) :
    (table.enums.map (·.name)).Nodup ∧ ∀ e ∈ table.enums, ∀ c ∈ table.moduleTypes,
      e.name ≠ c.name := by
  obtain ⟨given, htakes, hgiven, -⟩ := (unify_names h).given
  obtain ⟨-, henums, hdiffer⟩ := List.nodup_append.1 (hgiven.nodup_iff.1 htakes.nodup)
  exact ⟨henums,
    fun e he c hc hname => hdiffer _ (List.mem_map_of_mem hc) _ (List.mem_map_of_mem he) hname.symm⟩

/-- A value has the member of its name. -/
theorem EnumType.WellNamed.find? {e : EnumType} (h : e.WellNamed) {value : String}
    (hvalue : value ∈ e.values) : e.members.find? (·.2 = value) = some (constant value, value) := by
  rw [h.members]
  generalize e.values = values at hvalue
  induction values with
  | nil => cases hvalue
  | cons v rest ih =>
    rw [List.map_cons, List.find?_cons]
    by_cases heq : v = value
    · simp [heq]
    · simpa [heq] using ih ((List.mem_cons.1 hvalue).resolve_left (Ne.symm heq))

theorem enumFor?_some {table : TypeTable} {p : Param} {e : EnumType}
    (h : table.enumFor? p = some e) :
    e ∈ table.enums ∧ e.param = p.name ∧ e.values = p.options.map (·.value) := by
  unfold TypeTable.enumFor? at h
  split at h
  · cases h
  · have hmade := List.find?_some h
    exact ⟨List.mem_of_find?_eq_some h, of_decide_eq_true hmade⟩

theorem enumFor?_congr {table : TypeTable} {p q : Param} (hname : p.name = q.name)
    (hvalues : p.options.map (·.value) = q.options.map (·.value)) :
    table.enumFor? p = table.enumFor? q := by
  have hempty : p.options.isEmpty = q.options.isEmpty := by
    rw [← List.isEmpty_map, hvalues, List.isEmpty_map]
  rw [TypeTable.enumFor?, TypeTable.enumFor?, hempty, hname, hvalues]

open Build in
/-- Each param with options for whose values a client has a type has an enum: its values are the
options in their order, each of which has a member with a name of its own; the values of the param
are of this enum, and the options are written as its members. Two params have one enum just if they
have the same name and the same options. No two enums have one name, and none has that of a type of
the module. -/
theorem enums_usable {env : Env} {n n' : List Notice}
    (h : Gives (unify env.resolution env.config) n env.table n') :
    (∀ p, Types env p → p.options ≠ [] → ∃ e ∈ env.table.enums, env.table.enumFor? p = some e ∧
      e.values = p.options.map (·.value) ∧
      e.members = e.values.map (fun value => (constant value, value)) ∧
      (e.members.map (·.1)).Nodup ∧ (∀ source, valueType env p source = .ok (.enum e.name)) ∧
      ∀ o ∈ p.options, ∀ type source,
        valueExpr env p o.value type source = .ok (.member e.name (constant o.value))) ∧
    (∀ p q, Types env p → Types env q → p.options ≠ [] → q.options ≠ [] →
      (env.table.enumFor? p = env.table.enumFor? q ↔
        p.name = q.name ∧ p.options.map (·.value) = q.options.map (·.value))) ∧
    (env.table.enums.map (·.name)).Nodup ∧ ∀ e ∈ env.table.enums, ∀ c ∈ env.table.moduleTypes,
      e.name ≠ c.name := by
  have hsome : ∀ p, Types env p → p.options ≠ [] → ∃ e, env.table.enumFor? p = some e :=
    fun p hp hoptions => Option.isSome_iff_exists.1 (hasEnum_of_types h.yields hp hoptions)
  refine ⟨fun p hp hoptions => ?_, fun p q hp _ hoptions _ =>
    ⟨fun heq => ?_, fun ⟨hname, hvalues⟩ => ?_⟩, unify_enumNames h.yields⟩
  · obtain ⟨e, he⟩ := hsome p hp hoptions
    obtain ⟨hmem, -, hvalues⟩ := enumFor?_some he
    have hnamed := unify_wellNamed h.yields e hmem
    refine ⟨e, hmem, he, hvalues, hnamed.members, hnamed.nodup, fun source => ?_,
      fun o ho type source => ?_⟩
    · rw [valueType, he]
    · have hfind : e.members.find? (·.2 = o.value) = some (constant o.value, o.value) :=
        hnamed.find? (hvalues ▸ List.mem_map_of_mem ho)
      rw [valueExpr, he]
      simp only [hfind]
  · obtain ⟨e, he⟩ := hsome p hp hoptions
    obtain ⟨-, hname, hvalues⟩ := enumFor?_some he
    obtain ⟨-, hname', hvalues'⟩ := enumFor?_some (heq.symm.trans he)
    exact ⟨hname.symm.trans hname', hvalues.symm.trans hvalues'⟩
  · exact enumFor?_congr hname hvalues

/-- A param with options. -/
def paramOfKind (style : ParamStyle) (values : List String) : Param :=
  { name := "kind", style, options := values.map fun value => ⟨value, none, []⟩ }

/-- A description in which params of one name have two sets of options: one stands for a field and
in a request, the other for a placeholder. -/
def kinds : Application :=
  let list : Method :=
    ⟨"GET", none, some ⟨[.inline (paramOfKind .query ["a", "b"])], [], []⟩, [], []⟩
  ⟨"http://h/d", [], [], [⟨none, [⟨none, some "\x7bkind\x7d", [], formMediaType,
      [.inline (paramOfKind .template ["c"])], [.inline list], [], []⟩]⟩], [],
    [.inline ⟨some "kind", none, none, none, [.inline (paramOfKind .plain ["a", "b"])], []⟩], [],
    []⟩

open Build in
theorem enums_usable_kinds :
    let r : Resolution := ⟨kinds, [], [("http://h/d", kinds)]⟩
    let query := paramOfKind .query ["a", "b"]
    let template := paramOfKind .template ["c"]
    ∃ table t, Gives (unify r {}) [] table t ∧ Types ⟨r, table, {}, [], []⟩ query ∧
      query.options ≠ [] ∧ Types ⟨r, table, {}, [], []⟩ template ∧ template.options ≠ [] ∧
      table.names = ["Kind", "KindKind", "ByKindKind"] ∧
      (∃ e ∈ table.enums, table.enumFor? query = some e ∧ e.members = [("A", "a"), ("B", "b")]) ∧
      table.enumFor? query ≠ table.enumFor? template := by
  intro r query template
  obtain ⟨table, t, hu, hnames⟩ := exists_gives_of_any (x := unify r {}) (s := [])
    (p := fun table => table.names = ["Kind", "KindKind", "ByKindKind"]) (by decide +kernel)
  let env : Env := ⟨r, table, {}, [], []⟩
  have hquery : Types env query :=
    .listed (.resource List.mem_cons_self List.mem_cons_self)
      (@Resolution.Lists.requested r _ _ _ ⟨"", []⟩ _ _ List.mem_cons_self rfl rfl
        List.mem_cons_self) rfl
  have hchosen : declOf? [template] "kind" = some template := rfl
  have htemplate : Types env template := .accessor List.mem_cons_self rfl hchosen
  obtain ⟨henum, hsame, -⟩ := @enums_usable env [] t hu
  obtain ⟨e, he, hfor, hvalues, hmembers, -⟩ := henum query hquery (by decide)
  refine ⟨table, t, hu,
    hquery, by decide, htemplate, by decide, of_decide_eq_true hnames, ⟨e, he, hfor, ?_⟩, ?_⟩
  · rw [hmembers, hvalues]
    decide
  · rw [Ne, hsame query template hquery htemplate (by decide) (by decide)]
    decide

end Wadl
