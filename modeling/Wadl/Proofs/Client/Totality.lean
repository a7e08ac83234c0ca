import Wadl.Client.Generate
import Wadl.Proofs.Client.Names
import Wadl.Proofs.Resolution.Following
import Wadl.Proofs.Tables

/-!
# Why generating a client fails

A client that cannot be generated has names that clash, types or values that generated source has no
form for, or aliases in a circle where a definition is needed, or its source does not pass the check
(`GenerationError.IsProper`). No reference is unknown and no resource is without a class.
-/

namespace Wadl

/-- A reason that lies in the description: no reference is unknown, and no class is missing. -/
def GenerationError.IsProper : GenerationError → Prop
  | clash _ => True
  | unsupportedType .. => True
  | reference e => e.IsCyclic
  | badSource => True
  | noClass => False

open GenerationError (IsProper)

variable {r : Resolution}

section Steps

variable {α : Type} {Q : α → Prop}

/-- What cannot be followed is a circle of aliases. -/
theorem proper_of_cyclic {x : Except ResolveError α}
    (h : Result.Ensures x Q ResolveError.IsCyclic) :
    Result.Ensures (x.mapError .reference) Q IsProper := h.mapError fun _ he => he

/-- A name that cannot be claimed clashes with another one. -/
theorem proper_of_clash {x : Except NameClash α} :
    Result.Ensures (x.mapError .clash) (fun _ => True) IsProper := by
  cases x with
  | ok a => exact .pure trivial
  | error e => exact .throw trivial

end Steps

/-! ## Types -/

namespace Unify

variable {groups : Groups}

/-- Groups whose members have their references in the description. -/
def GroupsWithin (r : Resolution) (groups : Groups) : Prop :=
  ∀ g ∈ groups, ∀ m ∈ g.members, m.value.uses ⊆ r.uses

/-- A representation with its references in the description joins a group or begins one. -/
theorem add_proper (hr : r.Settled) (hgroups : GroupsWithin r groups) {rep : Placed Representation}
    (hrep : rep.value.uses ⊆ r.uses) :
    Result.Ensures (add r groups rep) (fun x => GroupsWithin r x.1) IsProper := by
  unfold add
  split
  · exact .pure hgroups
  · split
    · exact .pure hgroups
    · have hsignature :
          Result.Ensures (r.signature rep.value.params) (fun _ => True) ResolveError.IsCyclic :=
        (hr.params hrep).bind fun _ _ => .pure trivial
      refine (proper_of_cyclic hsignature).bind fun signature _ => ?_
      split
      · refine .pure (List.forall_mem_map.2 fun g hg => ?_)
        split
        · exact List.forall_mem_append.2 ⟨hgroups g hg, List.forall_mem_singleton.2 hrep⟩
        · exact hgroups g hg
      · refine .pure (List.forall_mem_append.2 ⟨hgroups, List.forall_mem_singleton.2 ?_⟩)
        exact List.forall_mem_singleton.2 hrep

/-- A usage joins a group, or the group of its form is made; the groups keep to what is resolved. -/
theorem addUsage_proper (hr : r.Settled) (hgroups : GroupsWithin r groups) {u : Usage}
    (hu : u.representation.value.uses ⊆ r.uses) :
    Result.Ensures (addUsage r groups u) (GroupsWithin r) IsProper := by
  refine (add_proper hr hgroups hu).bind fun ⟨groups', signature⟩ hgroups' => ?_
  cases signature with
  | none => exact .pure hgroups'
  | some s =>
    refine .pure (List.forall_mem_map.2 fun g hg => ?_)
    split
    · exact hgroups' g hg
    · exact hgroups' g hg

/-- Grouping the representations fails properly only, and groups hold only what is resolved. -/
theorem groupsOf_proper (hr : r.Settled) :
    Result.Ensures (groupsOf r) (GroupsWithin r) IsProper := by
  have hstart : GroupsWithin r [] := by simp [GroupsWithin]
  refine .bind (.foldlM hstart fun ⟨item, n⟩ hitem groups hgroups => ?_) fun groups hgroups =>
    hr.foldUsages (fun _ he => he) hgroups fun _ _ h hu => addUsage_proper hr h hu
  have huses : item.uses ⊆ r.uses := fun u hu =>
    List.mem_append_left _ (Application.representation_uses (List.fst_mem_of_mem_zipIdx hitem) hu)
  refine (proper_of_cyclic (hr.representation huses)).bind fun rep hrep => ?_
  exact (add_proper hr hgroups hrep).bind fun _ hadded => .pure hadded

/-- Names of declared types can only clash. -/
theorem nameDeclared_proper {scope : NameScope} :
    Result.Ensures (nameDeclared scope groups) (fun _ => True) IsProper := by
  induction groups generalizing scope with
  | nil => exact .pure trivial
  | cons g rest ih =>
    rw [nameDeclared]
    split
    · exact proper_of_clash.bind fun _ _ => ih.bind fun _ _ => .pure trivial
    · exact ih

/-- Types whose fields have their references in the description. -/
def FieldsWithin (r : Resolution) (c : CanonicalType) : Prop := ∀ p ∈ c.fields, p.uses ⊆ r.uses

/-- The fields of a type are the params of a member of its group. -/
theorem type_proper (hr : r.Settled) {g : Group} (hg : ∀ m ∈ g.members, m.value.uses ⊆ r.uses)
    {config : ClientConfig} {names : List (String × String)} :
    Result.Ensures (g.type r config names) (FieldsWithin r) IsProper := by
  have hitems : ((g.members.head?.map (·.value.params)).getD []).flatMap
      ParamItem.uses ⊆ r.uses := by
    cases hmembers : g.members with
    | nil => exact List.nil_subset _
    | cons m ms => exact hg m (hmembers ▸ List.mem_cons_self)
  exact (proper_of_cyclic (hr.params hitems)).bind fun _ hfields => .pure hfields

/-- Names of options can only clash. -/
theorem enumMembers_proper {param : String} {seen : List (String × String)} {values : List String} :
    Result.Ensures (enumMembers param seen values) (fun _ => True) IsProper := by
  induction values generalizing seen with
  | nil => exact .pure trivial
  | cons value rest ih =>
    rw [enumMembers]
    split
    · exact .throw trivial
    · exact ih

/-- The enum of a param fails only where two of its options have one name. -/
theorem addEnum_proper {context : String} {t : TypeTable} {p : Param} :
    Result.Ensures (addEnum context t p) (fun _ => True) IsProper := by
  unfold addEnum
  split
  · exact .pure trivial
  · exact enumMembers_proper.bind fun _ _ => .pure trivial

/-- The enums of params fail properly, as their references are settled. -/
theorem addEnums_proper (hr : r.Settled) {context : String} {t : TypeTable} {items : List ParamItem}
    (hitems : items.flatMap ParamItem.uses ⊆ r.uses) :
    Result.Ensures (addEnums r context t items) (fun _ => True) IsProper := by
  refine .foldlM trivial fun item hitem t _ => ?_
  have huses := List.forall_mem_flatMap.1 hitems _ hitem
  exact (proper_of_cyclic (hr.param huses)).bind fun p _ => addEnum_proper

theorem addMethodEnums_proper (hr : r.Settled) {c : Container} {t : TypeTable} {m : Method}
    (hm : m.uses ⊆ r.uses) : Result.Ensures (addMethodEnums r c t m) (fun _ => True) IsProper := by
  have hresponses : ∀ response ∈ m.responses, response.params.flatMap ParamItem.uses ⊆ r.uses :=
    fun response h => List.Subset.trans (Method.responseParams_uses h) hm
  unfold addMethodEnums
  cases hreq : m.request with
  | none => exact .foldlM trivial fun response h t _ => addEnums_proper hr (hresponses response h)
  | some request =>
    have hrequest : request.params.flatMap ParamItem.uses ⊆ r.uses :=
      fun _ hu => hm (Method.request_uses hreq (List.mem_append_left _ hu))
    refine (addEnums_proper hr hrequest).bind fun t _ => ?_
    exact .foldlM trivial fun response h t _ => addEnums_proper hr (hresponses response h)

/-- Enums are collected from types, containers and methods; their params are all in the
description. -/
theorem collectEnums_proper (hr : r.Settled) {t : TypeTable} :
    Result.Ensures (collectEnums r t) (fun _ => True) IsProper := by
  refine .bind (.foldlM trivial fun c _ t _ => .foldlM trivial fun p _ t _ => addEnum_proper)
    fun t _ => ?_
  refine .foldlM trivial fun c hc t _ => ?_
  have hparams := List.Subset.trans (Resolution.holder_params_uses _)
    (r.containers_within hc _ List.mem_cons_self)
  refine (addEnums_proper hr hparams).bind fun t _ => ?_
  refine (proper_of_cyclic (hr.methods hc)).bind fun ms hms => ?_
  exact .foldlM trivial fun m hm t _ => addMethodEnums_proper hr (hms m hm)

end Unify

open Unify in
/-- The types of a client have their references in the description. -/
theorem unify_proper (hr : r.Settled) {config : ClientConfig} :
    Ensures (unify r config) (fun table => ∀ c ∈ table.types, FieldsWithin r c) IsProper := by
  refine (Ensures.result (groupsOf_proper hr)).bind fun groups hgroups => ?_
  refine (Ensures.result nameDeclared_proper).bind fun _ _ => ?_
  refine (Ensures.mapM_gives fun g hg => .result (type_proper hr (hgroups g hg))).bind
    fun types htypes => ?_
  refine (Ensures.modify _).bind fun _ _ => .lift (fun table h => ?_) (collectEnums_proper hr).error
  rw [collectEnums_types h]
  exact htypes

/-! ## Building -/

namespace Build

/-- What building relies on: the references of the description and of its types are in the table,
and each container has a class, those of the resource types that references name among them. -/
structure Env.Settled (env : Env) : Prop where
  settled : env.resolution.Settled
  types : ∀ c ∈ env.table.types, Unify.FieldsWithin env.resolution c
  containers : env.containers = env.resolution.containers
  classes : ∀ c ∈ env.resolution.containers, ∃ name, classAt env c.place = .ok name
  resourceTypes : ∀ ref t, env.resolution.resourceType ref = .ok t →
    ∃ c ∈ env.resolution.containers, c.place = t.place

variable {env : Env}

theorem noticedText_proper {docs : List Doc} :
    Ensures (noticedText env docs) (fun _ => True) IsProper :=
  (Ensures.modify _).bind fun _ _ => .pure trivial

theorem docOf_proper {docs : List Doc} : Ensures (docOf env docs) (fun _ => True) IsProper := by
  unfold docOf
  split
  · exact noticedText_proper.bind fun _ _ => .pure trivial
  · exact .pure trivial

/-- Claiming a name fails only with a clash. -/
theorem claim_proper {scope : NameScope} {name source : String} :
    Result.Ensures (claim scope name source) (fun _ => True) IsProper := proper_of_clash

/-- A container has a class. -/
theorem classAt_proper (he : env.Settled) {c : Container} (hc : c ∈ env.resolution.containers) :
    Result.Ensures (classAt env c.place) (fun _ => True) IsProper := by
  obtain ⟨name, hname⟩ := he.classes c hc
  rw [hname]
  exact .pure trivial

/-- The resource type that a reference in the description names has a class. -/
theorem classOfType_proper (he : env.Settled) {ref : Reference}
    (h : ⟨.resourceType, ref⟩ ∈ env.resolution.uses) :
    Result.Ensures (classOfType env ref) (fun _ => True) IsProper := by
  obtain ⟨t, ht, -⟩ := he.settled.accessible.resourceType ref h
  obtain ⟨c, hc, hplace⟩ := he.resourceTypes ref t ht
  rw [classOfType, ht]
  show Result.Ensures (classAt env t.place) _ _
  rw [← hplace]
  exact classAt_proper he hc

/-- The param of an item is found, or its alias fails properly. -/
theorem paramOf_proper (he : env.Settled) {item : ParamItem} (h : item.uses ⊆ env.resolution.uses) :
    Result.Ensures (paramOf env item) (fun _ => True) IsProper :=
  (proper_of_cyclic (he.settled.param h)).weaken

theorem paramsOf_proper (he : env.Settled) {items : List ParamItem}
    (h : items.flatMap ParamItem.uses ⊆ env.resolution.uses) :
    Result.Ensures (paramsOf env items) (fun _ => True) IsProper :=
  (Result.Ensures.mapM fun _ hitem =>
    paramOf_proper he (List.forall_mem_flatMap.1 h _ hitem)).weaken

/-- The methods of a container are found, and use only what is resolved. -/
theorem methodsOf_proper (he : env.Settled) {c : Container} (hc : c ∈ env.resolution.containers) :
    Result.Ensures (methodsOf env c) (fun ms => ∀ m ∈ ms, m.value.uses ⊆ env.resolution.uses)
      IsProper :=
  proper_of_cyclic (he.settled.methods hc)

/-- A value without a known type is an error of its own. -/
theorem valueType_proper {p : Param} {source : String} :
    Result.Ensures (valueType env p source) (fun _ => True) IsProper := by
  unfold valueType mapType
  split
  · exact .pure trivial
  · refine .map (Q := fun _ => True) ?_ fun _ _ => trivial
    split
    · exact .pure trivial
    · exact .throw trivial

/-- A default that does not fit its type is an error of its own. -/
theorem valueExpr_proper {p : Param} {value : String} {type : ValueType} {source : String} :
    Result.Ensures (valueExpr env p value type source) (fun _ => True) IsProper := by
  unfold valueExpr literalOf
  split
  · refine .map (Q := fun _ => True) ?_ fun _ _ => trivial
    split
    · exact .pure trivial
    · exact .throw trivial
  · split
    · exact .pure trivial
    · exact .throw trivial

/-! ### Models -/

theorem modelField_proper {p : Param} {name : String} {type : ValueType} {source : String} :
    Result.Ensures (modelField env p name type source) (fun _ => True) IsProper := by
  unfold modelField
  cases p.repeating with
  | true => exact .pure trivial
  | false =>
    cases p.default.or p.fixed with
    | some value => exact valueExpr_proper.bind fun _ _ => .pure trivial
    | none => exact .pure trivial

/-- The helpers of a field find the classes of the resource types that its links name. -/
theorem followHelpers_proper (he : env.Settled) {scope : NameScope} {field : String} {p : Param}
    {links : List Link} (h : links.flatMap Link.uses ⊆ env.resolution.uses) :
    Result.Ensures (followHelpers env scope field p links) (fun _ => True) IsProper := by
  induction links generalizing scope with
  | nil => exact .pure trivial
  | cons link rest ih =>
    rw [List.flatMap_cons, List.append_subset] at h
    rw [followHelpers]
    split
    · exact ih h.2
    · rename_i ref href
      have huse : ⟨.resourceType, ref⟩ ∈ link.uses := by simp [Link.uses, href]
      refine (classOfType_proper he (h.1 huse)).bind fun _ _ => claim_proper.bind fun _ _ => ?_
      exact (ih h.2).bind fun _ _ => .pure trivial

/-- The fields of a model fail properly, one by one. -/
theorem modelFields_proper (he : env.Settled) {owner : String} {scope : NameScope}
    {params : List Param} (h : ∀ p ∈ params, p.uses ⊆ env.resolution.uses) :
    Result.Ensures (modelFields env owner scope params) (fun _ => True) IsProper := by
  induction params generalizing scope with
  | nil => exact .pure trivial
  | cons p rest ih =>
    obtain ⟨hp, hrest⟩ := List.forall_mem_cons.1 h
    rw [modelFields]
    refine claim_proper.bind fun _ _ => valueType_proper.bind fun _ _ =>
      modelField_proper.bind fun _ _ => ?_
    exact (followHelpers_proper he hp).bind fun _ _ => (ih hrest).bind fun _ _ => .pure trivial

theorem modelClass_proper (he : env.Settled) {c : CanonicalType} (hc : c ∈ env.table.types) :
    Ensures (modelClass env c) (fun _ => True) IsProper :=
  (Ensures.result (modelFields_proper he (he.types c hc))).bind fun _ _ =>
    docOf_proper.bind fun _ _ => .pure trivial

/-! ### Accessors -/

/-- Params of a container are looked for in all that stand around it. -/
theorem templateDecls_proper (he : env.Settled) {stations : List Station}
    (h : env.resolution.Within stations) :
    Result.Ensures (templateDecls env stations) (fun _ => True) IsProper := by
  suffices hscope : Result.Ensures (scopeParams env stations) (fun _ => True) IsProper from
    hscope.bind fun _ _ => .pure trivial
  induction stations with
  | nil => exact .pure trivial
  | cons s above ih =>
    obtain ⟨hs, habove⟩ := List.forall_mem_cons.1 h
    rw [scopeParams]
    refine (paramsOf_proper he (List.Subset.trans (Resolution.holder_params_uses _) hs)).bind
      fun _ _ => ?_
    exact (ih habove).bind fun _ _ => .pure trivial

theorem placeholderArgs_proper {decls : List Param} {label : String} {scope : NameScope}
    {placeholders : List String} :
    Result.Ensures (placeholderArgs env decls label scope placeholders)
      (fun _ => True) IsProper := by
  induction placeholders generalizing scope with
  | nil => exact .pure trivial
  | cons placeholder rest ih =>
    rw [placeholderArgs]
    split
    · exact ih
    · exact claim_proper.bind fun _ _ => valueType_proper.bind fun _ _ =>
        ih.bind fun _ _ => .pure trivial

/-- An accessor finds the class of its resource. -/
theorem accessor_proper (he : env.Settled) {scope : NameScope} {child : Container}
    (hchild : child ∈ env.resolution.containers) {res : Resource} {base : UrlBase}
    {wanted : String} :
    Ensures (accessor env scope child res base wanted) (fun _ => True) IsProper := by
  have hdecls := templateDecls_proper he (env.resolution.containers_within hchild)
  unfold accessor
  split
  case' isTrue => refine (Ensures.result claim_proper).bind fun _ _ => ?_
  case' isFalse => refine (Ensures.pure (Q := fun _ => True) trivial).bind fun _ _ => ?_
  all_goals
    refine (Ensures.result hdecls).bind fun _ _ =>
      (Ensures.result placeholderArgs_proper).bind fun _ _ => ?_
    exact (Ensures.result (classAt_proper he hchild)).bind fun _ _ =>
      docOf_proper.bind fun _ _ => .pure trivial

theorem accessors_proper (he : env.Settled) {scope : NameScope}
    {children : List ((Container × Resource × UrlBase) × String)}
    (h : ∀ x ∈ children, x.1.1 ∈ env.resolution.containers) :
    Ensures (accessors env scope children) (fun _ => True) IsProper := by
  induction children generalizing scope with
  | nil => exact .pure trivial
  | cons x rest ih =>
    obtain ⟨⟨child, res, base⟩, name⟩ := x
    obtain ⟨hchild, hrest⟩ := List.forall_mem_cons.1 h
    rw [accessors]
    exact (accessor_proper he hchild).bind fun _ _ => (ih hrest).bind fun _ _ => .pure trivial

/-- The accessors of a class fail properly, whatever their names are. -/
theorem namedAccessors_proper (he : env.Settled) {scope : NameScope}
    {children : List (Container × Resource × UrlBase)}
    (h : ∀ x ∈ children, x.1 ∈ env.resolution.containers) :
    Ensures (namedAccessors env scope children) (fun _ => True) IsProper :=
  accessors_proper he fun _ hx => h _ (List.of_mem_zip hx).1

/-! ### Operations -/

/-- What accessors leave open is found in the params that are declared around. -/
theorem pending_proper (he : env.Settled) {stations : List Station}
    (h : env.resolution.Within stations) :
    Result.Ensures (pending env stations) (fun _ => True) IsProper := by
  induction stations with
  | nil => exact .pure trivial
  | cons s above ih =>
    rw [pending]
    split
    · exact .pure trivial
    · refine (ih (List.forall_mem_cons.1 h).2).bind fun _ _ => ?_
      exact (templateDecls_proper he h).bind fun _ _ => .pure trivial

theorem argument_proper {scope : NameScope} {p : Param} {type : ValueType} {source : String}
    {required : Bool} :
    Ensures (argument env scope p type source required) (fun _ => True) IsProper := by
  unfold argument
  refine (Ensures.result claim_proper).bind fun ⟨name, inner⟩ _ => ?_
  dsimp only
  split
  case' isTrue => refine noticedText_proper.bind fun _ _ => ?_
  case' isFalse => refine (Ensures.pure (Q := fun _ => True) trivial).bind fun _ _ => ?_
  all_goals
    cases required with
    | true => exact .pure trivial
    | false =>
      cases p.repeating with
      | true => exact .pure trivial
      | false =>
        cases p.default with
        | none => exact .pure trivial
        | some value => exact (Ensures.result valueExpr_proper).bind fun _ _ => .pure trivial

/-- A param is sent as a fixed value or as an argument, or fails properly. -/
theorem supply_proper {d : Draft} {p : Param} {source : String} {required : Bool} :
    Ensures (supply env d p source required) (fun _ => True) IsProper := by
  refine (Ensures.result valueType_proper).bind fun type _ => ?_
  cases p.fixed with
  | some value => exact (Ensures.result valueExpr_proper).bind fun _ _ => .pure trivial
  | none => exact argument_proper.bind fun _ _ => .pure trivial

theorem addParam_proper {left : List String} {isType : Bool} {d : Draft} {p : Param}
    {source : String} : Ensures (addParam env left isType d p source) (fun _ => True) IsProper := by
  unfold addParam
  split
  · split
    · exact (Ensures.modify _).bind fun _ _ => .pure trivial
    · exact supply_proper
  · split
    · exact .pure trivial
    · exact supply_proper

/-- The params of a request are added one by one, each found by its alias. -/
theorem addRequest_proper (he : env.Settled) {left : List String} {isType : Bool}
    {label : String} {d : Draft} {items : List ParamItem}
    (h : items.flatMap ParamItem.uses ⊆ env.resolution.uses) :
    Ensures (addRequest env left isType label d items) (fun _ => True) IsProper := by
  refine (Ensures.foldlM (P := fun _ => True) fun item hitem d => ?_).weaken
  have huses := List.forall_mem_flatMap.1 h _ hitem
  exact (Ensures.result (paramOf_proper he huses)).bind fun _ _ => addParam_proper

/-- The params of the resource are added like those of the request. -/
theorem addShared_proper (he : env.Settled) {left : List String} {isType : Bool}
    {className : String} {d : Draft} {items : List ParamItem}
    (h : items.flatMap ParamItem.uses ⊆ env.resolution.uses) :
    Ensures (addShared env left isType className d items) (fun _ => True) IsProper := by
  refine (Ensures.foldlM (P := fun _ => True) fun item hitem d => ?_).weaken
  have huses := List.forall_mem_flatMap.1 h _ hitem
  refine (Ensures.result (paramOf_proper he huses)).bind fun p _ => ?_
  split
  · exact .pure trivial
  · exact addParam_proper

/-- The declaration of a placeholder is found, or an alias before it fails properly. -/
theorem findTemplate?_proper (he : env.Settled) {name : String} {items : List ParamItem}
    (h : items.flatMap ParamItem.uses ⊆ env.resolution.uses) :
    Result.Ensures (findTemplate? env name items) (fun _ => True) IsProper := by
  induction items with
  | nil => exact .pure trivial
  | cons item rest ih =>
    rw [List.flatMap_cons, List.append_subset] at h
    rw [findTemplate?]
    refine (paramOf_proper he h.1).bind fun p _ => ?_
    split
    · exact .pure trivial
    · exact ih h.2

/-- What the params of requests use is among what is resolved. -/
theorem requestParams_uses {methods : List (Placed Method)}
    (h : ∀ m ∈ methods, m.value.uses ⊆ env.resolution.uses) :
    (methods.flatMap fun m => (m.value.request.map (·.params)).getD []).flatMap ParamItem.uses ⊆
      env.resolution.uses := by
  rw [List.flatMap_assoc]
  exact List.forall_mem_flatMap.2 fun m hm => List.Subset.trans m.value.requestParams_uses (h m hm)

/-- The placeholders that are left open are added one by one. -/
theorem addPlaceholders_proper (he : env.Settled) {left : List String} {isType : Bool}
    {className : String} {methods : List (Placed Method)} {d : Draft}
    (h : ∀ m ∈ methods, m.value.uses ⊆ env.resolution.uses) :
    Ensures (addPlaceholders env left isType className methods d) (fun _ => True) IsProper := by
  refine (Ensures.foldlM (P := fun _ => True) fun placeholder _ d => ?_).weaken
  unfold addPlaceholder
  split
  · exact .pure trivial
  · have hdecl :
        Result.Ensures (placeholderDecl env methods placeholder) (fun _ => True) IsProper :=
      (findTemplate?_proper he (requestParams_uses h)).bind fun _ _ => .pure trivial
    exact (Ensures.result hdecl).bind fun _ _ => addParam_proper

/-- The representations of a place are found and have types. -/
theorem representationsAt_proper (he : env.Settled) {place : Place}
    {items : List RepresentationItem}
    (h : items.flatMap RepresentationItem.uses ⊆ env.resolution.uses) :
    Result.Ensures (representationsAt env place items) (fun _ => True) IsProper := by
  refine (Result.Ensures.mapM (P := fun _ => True) fun ⟨item, n⟩ hitem => ?_).weaken
  have huses := List.forall_mem_flatMap.1 h _ (List.fst_mem_of_mem_zipIdx hitem)
  exact (proper_of_cyclic (he.settled.representation huses)).weaken

/-- The branches of an operation fail properly, response by response. -/
theorem branches_proper (he : env.Settled) {m : Placed Method}
    (h : m.value.uses ⊆ env.resolution.uses) :
    Result.Ensures (branches env m) (fun _ => True) IsProper := by
  unfold branches
  split
  · exact .pure trivial
  · refine (Result.Ensures.mapM (P := fun _ => True) fun ⟨response, n⟩ hresponse => ?_).weaken
    have hbodies := Method.responseBodies_uses (List.fst_mem_of_mem_zipIdx hresponse)
    exact (representationsAt_proper he (List.Subset.trans hbodies h)).bind fun _ _ => .pure trivial

theorem accept_proper (he : env.Settled) {m : Placed Method}
    (h : m.value.uses ⊆ env.resolution.uses) :
    Result.Ensures (accept env m) (fun _ => True) IsProper := by
  refine (Result.Ensures.mapM (P := fun _ => True) fun ⟨response, n⟩ hresponse => ?_).bind
    fun _ _ => .pure trivial
  have hbodies := Method.responseBodies_uses (List.fst_mem_of_mem_zipIdx hresponse)
  exact representationsAt_proper he (List.Subset.trans hbodies h)

theorem operationDoc_proper {m : Method} {args : List Argument} :
    Ensures (operationDoc env m args) (fun _ => True) IsProper := by
  unfold operationDoc
  split
  · refine noticedText_proper.bind fun text _ => ?_
    dsimp only
    split
    · exact .pure trivial
    · exact .pure trivial
  · exact .pure trivial

/-- What an operation sends has a type, or is an error of its own. -/
theorem sentBody_proper (he : env.Settled) {m : Placed Method} {d : Draft}
    (h : m.value.uses ⊆ env.resolution.uses) :
    Result.Ensures (sentBody env m d) (fun _ => True) IsProper := by
  unfold sentBody
  cases hreq : m.value.request with
  | none => exact .pure trivial
  | some request =>
    have hbodies := List.Subset.trans (Method.requestBodies_uses hreq) h
    refine (representationsAt_proper he hbodies).bind fun reps _ => ?_
    split
    · exact .pure trivial
    · exact claim_proper.bind fun _ _ => .pure trivial

/-- An operation takes its params from its request, from other methods and from its container. -/
theorem operation_proper (he : env.Settled) {c : Container} (hc : c ∈ env.resolution.containers)
    {className : String} {methods : List (Placed Method)}
    (hmethods : ∀ m ∈ methods, m.value.uses ⊆ env.resolution.uses) {scope : NameScope}
    {m : Placed Method} (hm : m ∈ methods) :
    Ensures (operation env c className methods scope m) (fun _ => True) IsProper := by
  have hwithin := env.resolution.containers_within hc
  have huses := hmethods m hm
  have hrequest := List.Subset.trans m.value.requestParams_uses huses
  have hshared := List.Subset.trans (Resolution.holder_params_uses _) (hwithin _ List.mem_cons_self)
  refine (Ensures.result claim_proper).bind fun ⟨name, scope'⟩ _ => ?_
  refine (Ensures.result (pending_proper he hwithin)).bind fun left _ => ?_
  refine (addRequest_proper he hrequest).bind fun d _ => ?_
  refine (addPlaceholders_proper he hmethods).bind fun d _ => ?_
  refine (addShared_proper he hshared).bind fun d _ => ?_
  refine (Ensures.result (sentBody_proper he huses)).bind fun ⟨body, d⟩ _ => ?_
  refine (Ensures.result (accept_proper he huses)).bind fun accept _ => ?_
  refine (Ensures.result (branches_proper he huses)).bind fun branches _ => ?_
  exact operationDoc_proper.bind fun _ _ => .pure trivial

/-- The operations of a class fail properly, method by method. -/
theorem operations_proper (he : env.Settled) {c : Container} (hc : c ∈ env.resolution.containers)
    {className : String} {methods : List (Placed Method)}
    (hmethods : ∀ m ∈ methods, m.value.uses ⊆ env.resolution.uses) {scope : NameScope}
    {ms : List (Placed Method)} (hms : ms ⊆ methods) :
    Ensures (operations env c className methods scope ms) (fun _ => True) IsProper := by
  induction ms generalizing scope with
  | nil => exact .pure trivial
  | cons m rest ih =>
    obtain ⟨hm, hrest⟩ := List.cons_subset.1 hms
    rw [operations]
    exact (operation_proper he hc hmethods hm).bind fun _ _ =>
      (ih hrest).bind fun _ _ => .pure trivial

/-! ### Classes -/

/-- The bases of a class are the classes of its types, which all have one. -/
theorem basesOf_proper (he : env.Settled) {c : Container} (hc : c ∈ env.resolution.containers) :
    Result.Ensures (basesOf env c) (fun _ => True) IsProper := by
  have hhere := env.resolution.containers_within hc _ List.mem_cons_self
  unfold basesOf
  split
  · exact .pure trivial
  · rename_i res hholder
    refine (Result.Ensures.mapM (P := fun _ => True) fun ref href => ?_).bind fun _ _ =>
      .pure trivial
    refine classOfType_proper he (hhere ?_)
    rw [hholder]
    exact Resource.type_uses href

/-- The class of a container has the classes of others as bases and as results of its accessors. -/
theorem resourceClass_proper (he : env.Settled) {c : Container}
    (hc : c ∈ env.resolution.containers) :
    Ensures (resourceClass env c) (fun _ => True) IsProper := by
  refine (Ensures.result (classAt_proper he hc)).bind fun name _ => ?_
  refine (Ensures.result (basesOf_proper he hc)).bind fun bases _ => ?_
  refine (Ensures.mapM_gives (P := fun _ => True) fun t ht => ?_).bind fun nested _ => ?_
  · exact modelClass_proper he (List.mem_of_mem_filter ht)
  refine (Ensures.result (methodsOf_proper he hc)).bind fun methods hmethods => ?_
  refine (operations_proper he hc hmethods (List.Subset.refl _)).bind fun ⟨ops, scope⟩ _ => ?_
  refine (namedAccessors_proper he fun child hchild => ?_).bind fun accessors _ => ?_
  · rw [← he.containers]
    exact List.mem_of_mem_filter (mem_withResources hchild).1
  exact docOf_proper.bind fun _ _ => .pure trivial

/-- The entry class fails properly. -/
theorem entryClass_proper (he : env.Settled) :
    Ensures (entryClass env) (fun _ => True) IsProper := by
  refine (namedAccessors_proper he fun x hx => ?_).bind fun _ _ =>
    docOf_proper.bind fun _ _ => .pure trivial
  obtain ⟨⟨group, n⟩, -, hx⟩ := List.mem_flatMap.1 hx
  rw [← he.containers]
  exact List.mem_of_mem_filter (mem_withResources hx).1

/-- Names of classes can only clash. -/
theorem claimClasses_proper {scope : NameScope} {cs : List Container} :
    Result.Ensures (claimClasses scope cs) (fun _ => True) IsProper := by
  induction cs generalizing scope with
  | nil => exact .pure trivial
  | cons c rest ih =>
    rw [claimClasses]
    refine .bind (Q := fun _ => True) ?_ fun _ _ => ih.bind fun _ _ => .pure trivial
    unfold claimClass
    split
    · exact claim_proper.bind fun _ _ => .pure trivial
    · exact .pure trivial

theorem moduleDoc_proper : Ensures (moduleDoc env) (fun _ => True) IsProper := by
  unfold moduleDoc
  dsimp only
  split
  · exact .pure trivial
  · exact docOf_proper

end Build

open Build in
/-- A client is built, or for a proper reason it is not. -/
theorem buildModule_proper {w : Web} (hw : w.Resolves r) (hr : r.Settled) {table : TypeTable}
    (htypes : ∀ c ∈ table.types, Unify.FieldsWithin r c) {config : ClientConfig} :
    Ensures (buildModule r table config) (fun _ => True) IsProper := by
  refine (Ensures.lift (Q := fun classNames => ∀ c ∈ r.containers, c.place ∈ classNames.map (·.1))
    (fun classNames h c hc => ?_) claimClasses_proper.error).bind fun classNames hnames => ?_
  · rw [claimClasses_places h]
    exact List.mem_map_of_mem hc
  have he : (⟨r, table, config, classNames, r.containers⟩ : Env).Settled := by
    refine ⟨hr, htypes, rfl, fun c hc => ?_, fun ref t ht => ?_⟩
    · obtain ⟨name, hname⟩ := mem_keys_of_lookup.1 (hnames c hc)
      exact ⟨name, classAt_ok.2 hname⟩
    · obtain ⟨c, hc, hplace, -⟩ := Web.container_of_resourceType hw ht
      exact ⟨c, hc, hplace⟩
  refine moduleDoc_proper.bind fun doc _ => ?_
  refine (Ensures.mapM_gives (P := fun _ => True) fun t ht => ?_).bind fun models _ => ?_
  · exact modelClass_proper he (List.mem_of_mem_filter ht)
  refine (Ensures.mapM_gives (P := fun _ => True) fun c hc => ?_).bind fun classes _ => ?_
  · exact resourceClass_proper he (Resolution.mem_classOrder.1 hc)
  exact (entryClass_proper he).bind fun _ _ => .pure trivial

/-- Generating a client gives a source that passes the check, or fails for a proper reason. -/
theorem generate_proper {w : Web} (hw : w.Resolves r) (hr : r.Settled) {isValid : String → Bool}
    {config : ClientConfig} :
    Ensures (generate isValid r config) (fun source => isValid source = true) IsProper := by
  refine (unify_proper hr).bind fun table htypes =>
    (buildModule_proper hw hr htypes).bind fun m _ => ?_
  split
  case isTrue hvalid => exact (Ensures.modify _).bind fun _ _ => .pure hvalid
  case isFalse => exact .throw trivial

/-! ## What is never missing -/

open Unify Build in
/-- What is looked up when a client is made, and always there: the first member of each group of
representations, the name of its type, and a body to send where a request has representations. -/
structure NeverMissing (r : Resolution) (config : ClientConfig) : Prop where
  members : ∀ groups, groupsOf r = .ok groups → ∀ g ∈ groups, g.members ≠ []
  names : ∀ groups scope declared, groupsOf r = .ok groups →
    nameDeclared (moduleScope config) groups = .ok (scope, declared) →
    ∀ g ∈ groups, ∃ name,
      (declared ++ (nameOthers config scope [] groups).2).lookup g.signature = some name
  bodies :
    ∀ (env : Env) (m : Placed Method) (request : Request) (d d' : Draft) (sent : Option SentBody),
    m.value.request = some request → request.representations ≠ [] →
    sentBody env m d = .ok (sent, d') → sent.isSome = true

open Unify Build in
/-- Nothing of what is looked up is missing, whatever the description is. -/
theorem neverMissing (r : Resolution) (config : ClientConfig) : NeverMissing r config := by
  refine ⟨fun groups hgroups => ?_, fun groups scope named hgroups hnamed g hg => ?_, ?_⟩
  · exact groupsOf_keeps (P :=
      fun g => g.members ≠ []) (by simp) (by simp) (fun _ _ _ _ _ h => h) hgroups
  · obtain ⟨declared, rfl, hdeclared, -⟩ := nameDeclared_ok (moduleScope_reserved config) hnamed
    obtain ⟨others, hothers⟩ := nameOthers_spec config scope [] (capital_of_mem_sites hgroups)
    -- a group has the identifier that was declared for it, or one of the other names
    have hmem : g ∈ declared.map (·.1) ∨ g ∈ others.map (·.1) := by
      rw [hdeclared, hothers.groups_eq, List.mem_filter, List.mem_filter]
      cases hid : g.isDeclared <;> simp [hg]
    refine mem_keys_of_lookup.1 ?_
    rw [hothers.names_eq, List.map_append, signed, signed, List.map_map, List.map_map]
    rcases hmem with hmem | hmem
    · obtain ⟨x, hx, rfl⟩ := List.mem_map.1 hmem
      exact List.mem_append_left _ (List.mem_map.2 ⟨x, hx, rfl⟩)
    · obtain ⟨x, hx, rfl⟩ := List.mem_map.1 hmem
      exact List.mem_append_right _ (List.mem_map.2 ⟨x, hx, rfl⟩)
  · intro env m request d d' sent hreq hne h
    unfold sentBody at h
    rw [hreq] at h
    obtain ⟨reps, hreps, h⟩ := Result.bind_ok.1 h
    split at h
    · rename_i hnone
      have hperm : (preferred env (·.value.mediaType) reps).Perm reps := sorted_perm reps
      rw [hnone] at hperm
      obtain rfl := hperm.nil_eq
      exact absurd (List.zipIdx_eq_nil_iff.1
        (List.forall₂_nil_right_iff.1 (Result.mapM_ok.1 hreps))) hne
    · obtain ⟨_, -, h⟩ := Result.bind_ok.1 h
      rw [← (Prod.mk.inj (Result.pure_ok.1 h)).1]
      rfl

/-- In a description that is read references are of the kinds that are asked for. If they are, then,
once it is resolved, generating a client of it gives a source that passes the check or fails for a
proper reason, whatever the settings are, whatever the check is and whatever was noticed before.
Nothing that is looked up for the client is missing. -/
theorem generate_fails_properly :
    (∀ base strict root app, Yields (readDescription base strict root) app → app.Kinded) ∧
    ∀ (w : Web) (fuel : Nat) (r : Resolution) (n n' : List Notice), w.app.Kinded →
      Gives (resolveWith w.loading w.strict fuel w.app) n r n' →
      ∀ (isValid : String → Bool) (config : ClientConfig),
        (∀ s, (∃ source t, Gives (generate isValid r config) s source t ∧ isValid source = true) ∨
          ∃ e t, Id.run ((generate isValid r config).run.run s) = (.error e, t) ∧ e.IsProper) ∧
        NeverMissing r config := by
  refine ⟨fun _ _ _ _ h => readDescription_kinded h,
    fun w fuel r n n' hkinded hr isValid config => ?_⟩
  have hresolves := Web.resolves_of_gives hr
  exact ⟨(generate_proper hresolves (hresolves.settled hkinded)).gives_or_fails,
    neverMissing r config⟩

/-- Two params that refer to each other make generation fail with the error of a circle. -/
theorem generate_fails_properly_circledParams :
    let w : Web := ⟨circledParams, none, false⟩
    let circle := ["http://h/d#c", "http://h/d#d", "http://h/d#c"]
    w.app.Kinded ∧ ∃ r n, Gives (resolveWith w.loading w.strict 9 w.app) [] r n ∧
      ∃ e t, Id.run ((generate (fun _ => true) r {}).run.run []) = (.error e, t) ∧ e.IsProper ∧
        e = .reference (.cyclic circle) := by
  intro w circle
  have hkinded : w.app.Kinded := by
    show ∀ u ∈ circledParams.uses, _
    decide
  obtain ⟨r, n, hr, hcircle⟩ :=
    exists_gives_of_any (x := resolveWith w.loading w.strict 9 w.app) (s := [])
    (p := fun r => errorOf? (Id.run ((generate (fun _ => true) r {}).run.run [])).1 =
      some (.reference (.cyclic circle))) (by decide +kernel)
  have hcircle := of_decide_eq_true hcircle
  refine ⟨hkinded, r, n, hr, ?_⟩
  rcases (generate_fails_properly.2 w 9 r [] n hkinded hr (fun _ => true) {}).1 [] with
    ⟨source, t, hgives, -⟩ | ⟨e, t, hfails, hproper⟩
  · rw [hgives] at hcircle
    cases hcircle
  · rw [hfails] at hcircle
    exact ⟨e, t, hfails, hproper, Option.some.inj hcircle⟩

end Wadl
