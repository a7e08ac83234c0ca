import Wadl.Proofs.Client.Accessors
import Wadl.Proofs.Client.Capture

/-!
# Fixed params

An operation makes each value that it sends of one param: of the first of its request, and otherwise
of the first of its container, or for a placeholder of the first that any request of the container
has (`Build.FilledBy`). It sends the literal of this param, if it is fixed, and else an argument
(`Build.operation_takes`). But it does not look for the declaration of a placeholder on the
resources, and an accessor, which does, has an argument for each placeholder that is declared
(`Build.accessor_placeholders`). `fixed_left_iff` says where a fixed param is left to the caller.
-/

namespace Wadl

/-! ## What is declared -/

/-- The param that is declared for a value of an operation: the first of its request, or else of its
container, and for a placeholder the one that a resource declares. -/
def Resolution.declared? (r : Resolution) (c : Container) (request own : List Param) :
    ParamStyle → String → Option Param
  | .template, name =>
    (firstSent? .template name request).or (r.declaration? (c.here :: c.above) name)
  | style, name => firstSent? style name (request ++ own)

/-- An operation has an argument for a value whose param is fixed. -/
def Operation.LeavesFixed (r : Resolution) (c : Container) (request own : List Param)
    (op : Operation) : Prop :=
  ∃ style, ∃ e ∈ op.values style, e.2.argument?.isSome ∧
    ∃ p, r.declared? c request own style e.1 = some p ∧ p.fixed.isSome

/-- An accessor has an argument for a placeholder whose param is fixed. -/
def Accessor.LeavesFixed (r : Resolution) (c : Container) (a : Accessor) : Prop :=
  ∃ arg ∈ a.args, ∃ p, r.declaration? (c.here :: c.above) arg.placeholder = some p ∧ p.fixed.isSome

namespace Build

variable {env : Env}

/-- The param that fills a placeholder in an operation: the first of its request, or for a
placeholder that is left open the one that is found for it. -/
inductive FilledBy (env : Env) (c : Container) (methods : List (Placed Method))
    (request : List Param) (name : String) (p : Param) : Prop where
  | request (h : firstSent? .template name request = some p)
  | placeholder (hnone : firstSent? .template name request = none)
      (hopen : LeftOpen env.resolution c name) (hfound : placeholderDecl env methods name = .ok p)

theorem Contributes.isSome_argument?_iff {args : List String} {p : Param} {v : ValueExpr}
    (h : Contributes env args p v) : v.argument?.isSome ↔ p.fixed = none := by
  cases h with
  | literal hfixed _ hv => simp [valueExpr_argument? hv, hfixed]
  | argument hfree _ => simp [ValueExpr.argument?, hfree]

/-! ## Drafts -/

/-- Each template value of a draft is contributed by a param that is taken for its name. -/
structure Draft.FilledFrom (env : Env) (taken : String → Param → Prop) (d : Draft) : Prop where
  reserved : d.scope.reserved = reservedWords
  entries : ∀ e ∈ d.template, ∃ p, taken e.1 p ∧ Contributes env (d.args.map (·.name)) p e.2

namespace Draft.FilledFrom

variable {taken taken' : String → Param → Prop} {d d' : Draft} {p : Param} {source : String}

theorem supply {required : Bool} (h : d.FilledFrom env taken)
    (hmono : ∀ name q, taken name q → taken' name q) (hnew : p.style = .template → taken' p.name p)
    (hsupply : Yields (Build.supply env d p source required) d') : d'.FilledFrom env taken' := by
  obtain ⟨v, added, hcontributes, hargs, hvalues, htakes, -⟩ := supply_yields h.reserved hsupply
  have hargs' : d'.args.map (·.name) = d.args.map (·.name) ++ added.map (·.name) := by
    rw [hargs, List.map_append]
  have hold : ∀ e ∈ d.template, ∃ q,
      taken' e.1 q ∧ Contributes env (d'.args.map (·.name)) q e.2 := by
    intro e he
    obtain ⟨q, hq, hcontributes⟩ := h.entries e he
    exact ⟨q, hmono _ _ hq, hcontributes.mono (hargs' ▸ List.subset_append_left _ _)⟩
  refine ⟨htakes.reserved.trans h.reserved, fun e he => ?_⟩
  have hvalue : d'.template = if p.style.sent =
      .template then d.template ++ [(p.name, v)] else d.template :=
    hvalues .template
  rw [hvalue] at he
  split at he
  · rename_i hsent
    rcases List.mem_append.1 he with he | he
    · exact hold e he
    · obtain rfl := List.mem_singleton.1 he
      refine ⟨p, hnew (Draft.Sends.sent_eq_template hsent.symm), ?_⟩
      exact hcontributes.mono (hargs' ▸ List.subset_append_right _ _)
  · exact hold e he

/-- A param is taken for its name if it is a template param for which the URL has a place that is
not filled yet. -/
theorem addParam {left : List String} {isType : Bool} (h : d.FilledFrom env taken)
    (hmono : ∀ name q, taken name q → taken' name q)
    (hnew : p.style = .template → p.name ∈ left ∨ isType = true →
      p.name ∉ d.filled → taken' p.name p)
    (hadd : Yields (Build.addParam env left isType d p source) d') : d'.FilledFrom env taken' := by
  have hkeep : d.FilledFrom env taken' :=
    ⟨h.reserved, fun e he => (h.entries e he).imp fun q hq => ⟨hmono _ _ hq.1, hq.2⟩⟩
  rw [Build.addParam] at hadd
  split at hadd
  · rename_i hstyle
    split at hadd
    · obtain ⟨-, -, hadd⟩ := hadd.bind
      rwa [← hadd.pure]
    · rename_i htake
      obtain ⟨hleft, hfresh⟩ : (p.name ∈ left ∨ isType = true) ∧ p.name ∉ d.filled := by
        simpa [or_iff_not_imp_left] using htake
      have hmarked : ({ d with filled := p.name :: d.filled } : Draft).FilledFrom env taken :=
        ⟨h.reserved, h.entries⟩
      exact hmarked.supply hmono (fun hstyle => hnew hstyle hleft hfresh) hadd
  · rename_i hstyle
    split at hadd
    · rwa [← hadd.pure]
    · exact h.supply hmono (fun h => absurd h hstyle) hadd

end Draft.FilledFrom

/-- A template param for which the URL has a place is filled once it was taken, and what was filled
stays so. -/
theorem addParam_filled {left : List String} {isType : Bool} {d d' : Draft}
    {p : Param} {source : String} (h : Yields (addParam env left isType d p source) d') :
    d.filled ⊆ d'.filled ∧
    (p.style = .template → p.name ∈ left ∨ isType = true → p.name ∈ d'.filled) := by
  rw [addParam] at h
  split at h
  · split at h
    · rename_i hskip
      obtain ⟨-, -, h⟩ := h.bind
      rw [← h.pure]
      refine ⟨List.Subset.refl _, fun _ hleft => ?_⟩
      by_contra hfresh
      rcases hleft with hleft | hleft <;> simp [hleft, hfresh] at hskip
    · rw [(supply_template h).1]
      exact ⟨List.subset_cons_self _ _, fun _ _ => List.mem_cons_self⟩
  · rename_i hstyle
    refine ⟨?_, fun h => absurd h hstyle⟩
    split at h
    · rw [← h.pure]
      exact List.Subset.refl _
    · rw [(supply_template h).1]
      exact List.Subset.refl _

theorem exists_template_of_mem_sentNames {ps : List Param} {name : String}
    (h : name ∈ sentNames .template ps) : ∃ p ∈ ps, p.style = .template ∧ p.name = name := by
  obtain ⟨p, hp, hname⟩ := List.mem_map.1 h
  obtain ⟨hp, hsent⟩ := List.mem_filter.1 hp
  exact ⟨p, hp, Draft.Sends.sent_eq_template (by simpa using hsent : p.style.sent = _).symm, hname⟩

/-- What the params of a request do to a draft: each placeholder that can be filled is filled by the
first template param with its name. -/
structure Draft.TakesRequest (env : Env) (left : List String) (isType : Bool) (ps : List Param)
    (d : Draft) : Prop where
  from_first : d.FilledFrom env fun name p => firstSent? .template name ps = some p
  filled : ∀ p ∈ ps, p.style = .template → p.name ∈ left ∨ isType = true → p.name ∈ d.filled

theorem addRequest_takes {left : List String} {isType : Bool} {label text : String} {d : Draft}
    {items : List ParamItem}
    (h : Yields (addRequest env left isType label { scope := newScope env text } items) d) :
    ∃ request, paramsOf env items = .ok request ∧ d.TakesRequest env left isType request := by
  have hstart : Draft.TakesRequest env left isType [] { scope := newScope env text } :=
    ⟨⟨rfl, by simp⟩, by simp⟩
  refine foldlM_params (Draft.TakesRequest env left isType)
    (fun d d' item ps hd hstep => ?_) hstart h
  obtain ⟨p, hp, hstep⟩ := hstep.bind
  obtain ⟨hgrows, hp'⟩ := addParam_filled hstep
  refine ⟨p, hp.lift,
    hd.from_first.addParam (fun _ _ h => firstSent?_append_of_some h _) ?_ hstep, ?_⟩
  · intro hstyle hleft hfresh
    -- a param before it with the same name would have been taken
    have hnew : p.name ∉ sentNames .template ps := by
      intro hmem
      obtain ⟨q, hq, hqstyle, hname⟩ := exists_template_of_mem_sentNames hmem
      exact hfresh (hname ▸ hd.filled q hq hqstyle (hname ▸ hleft))
    rw [firstSent?, List.find?_append, ← firstSent?, firstSent?_eq_none hnew]
    simp [hstyle]
  · intro q hq hstyle hleft
    rcases List.mem_append.1 hq with hq | hq
    · exact hgrows (hd.filled q hq hstyle hleft)
    · obtain rfl := List.mem_singleton.1 hq
      exact hp' hstyle hleft

/-- What is left open after the request is filled by what is found for it. -/
theorem addPlaceholders_takes {c : Container} {left : List String} {isType : Bool}
    {className : String} {methods : List (Placed Method)} {request : List Param} {d d' : Draft}
    (hleft : ∀ name, name ∈ left ↔ LeftOpen env.resolution c name)
    (hd : d.TakesRequest env left isType request)
    (h : Yields (addPlaceholders env left isType className methods d) d') :
    d'.FilledFrom env (FilledBy env c methods request) := by
  have hstart : d.FilledFrom env (FilledBy env c methods request) :=
    ⟨hd.from_first.reserved, fun e he => (hd.from_first.entries e he).imp fun p hp =>
      ⟨.request hp.1, hp.2⟩⟩
  refine (Yields.foldlM_keeps (fun e => e.FilledFrom env (FilledBy env c methods request) ∧
    d.filled ⊆ e.filled) (fun e e' name hname he hstep => ?_) ⟨hstart, List.Subset.refl _⟩ h).1
  rw [addPlaceholder] at hstep
  split at hstep
  · rwa [← hstep.pure]
  · obtain ⟨p, hp, hstep⟩ := hstep.bind
    obtain ⟨hstyle, rfl⟩ := placeholderDecl_ok hp.lift
    refine ⟨he.1.addParam (fun _ _ => id) (fun _ _ hfresh => ?_) hstep,
      List.Subset.trans he.2 (addParam_filled hstep).1⟩
    refine .placeholder (firstSent?_eq_none fun hmem => ?_) ((hleft _).1 hname) hp.lift
    obtain ⟨q, hq, hqstyle, hqname⟩ := exists_template_of_mem_sentNames hmem
    exact hfresh (he.2 (hqname ▸ hd.filled q hq hqstyle (Or.inl (hqname ▸ hname))))

theorem addShared_takes {left : List String} {isType : Bool} {className : String}
    {taken : String → Param → Prop} {d d' : Draft} {items : List ParamItem}
    (hd : d.FilledFrom env taken) (h : Yields (addShared env left isType className d items) d') :
    d'.FilledFrom env taken := by
  refine Yields.foldlM_keeps (fun e => e.FilledFrom env taken) (fun e e' item _ he hstep => ?_) hd h
  obtain ⟨p, hp, hstep⟩ := hstep.bind
  split at hstep
  · rwa [← hstep.pure]
  · rename_i hstyle
    exact he.addParam (fun _ _ => id) (fun h => absurd h hstyle) hstep

end Build

/-! ## Operations -/

/-- An operation makes each value that it sends of the param that is taken for it. -/
structure Operation.Takes (env : Build.Env) (c : Container) (methods : List (Placed Method))
    (request own : List Param) (op : Operation) : Prop where
  sends : op.Sends env request own
  template : ∀ e ∈ op.template, ∃ p, Build.FilledBy env c methods request e.1 p ∧
    Build.Contributes env (op.args.map (·.name)) p e.2

namespace Build

variable {env : Env}

theorem operation_takes {c : Container} {className : String} {methods : List (Placed Method)}
    {scope scope' : NameScope} {m : Placed Method} {op : Operation}
    (hc : TypesOutermost (c.here :: c.above))
    (h : Yields (operation env c className methods scope m) (op, scope')) :
    ∃ request own, paramsOf env ((m.value.request.map (·.params)).getD []) = .ok request ∧
      paramsOf env c.here.holder.params = .ok own ∧ op.Takes env c methods request own := by
  obtain ⟨request, own, hrequest, hown, hsends⟩ := operation_sends h
  obtain ⟨left, d₁, d₂, d₃, d₄, hsteps, -, -, -, hargs, htemplate, -⟩ := operation_yields h
  obtain ⟨request', hrequest', h₁⟩ := addRequest_takes hsteps.request
  obtain rfl := Except.ok.inj (hrequest.symm.trans hrequest')
  have hleft : ∀ name, name ∈ left ↔ LeftOpen env.resolution c name :=
    fun name => mem_pending hc hsteps.pending_eq
  have h₃ := addShared_takes (addPlaceholders_takes hleft h₁ hsteps.placeholders) hsteps.shared
  refine ⟨request, own, hrequest, hown, hsends, fun e he => ?_⟩
  rw [htemplate, sentBody_template hsteps.body] at he
  obtain ⟨p, hp, hcontributes⟩ := h₃.entries e he
  refine ⟨p, hp, hcontributes.mono ?_⟩
  rw [hargs, (sentBody_yields hsteps.body).1]
  exact List.subset_append_left _ _

/-- An operation leaves a fixed param to its caller just for a placeholder that is open although a
resource declares it: no request fixes it, and that of the operation does not declare it at all. -/
theorem leavesFixed_iff {c : Container} {methods : List (Placed Method)}
    {request own : List Param} {op : Operation} (htakes : op.Takes env c methods request own)
    (hfilled : ∀ name, LeftOpen env.resolution c name → name ∈ op.template.map (·.1)) :
    op.LeavesFixed env.resolution c request own ↔ ∃ name p q, LeftOpen env.resolution c name ∧
      env.resolution.declaration? (c.here :: c.above) name = some p ∧ p.fixed.isSome ∧
      firstSent? .template name request = none ∧ placeholderDecl env methods name = .ok q ∧
      q.fixed = none := by
  constructor
  · rintro ⟨style, e, he, hargument, p, hp, hfixed⟩
    by_cases hstyle : style = .template
    · subst hstyle
      obtain ⟨q, hq, hcontributes⟩ := htakes.template e he
      have hfree := hcontributes.isSome_argument?_iff.1 hargument
      cases hq with
      | request hfirst =>
        rw [Resolution.declared?, hfirst] at hp
        obtain rfl := Option.some.inj hp
        simp [hfree] at hfixed
      | placeholder hnone hopen hfound =>
        rw [Resolution.declared?, hnone, Option.none_or] at hp
        exact ⟨e.1, p, q, hopen, hp, hfixed, hnone, hfound, hfree⟩
    · obtain ⟨q, hq, hcontributes⟩ := htakes.sends.entries style hstyle e he
      have hfree := hcontributes.isSome_argument?_iff.1 hargument
      have hp' : env.resolution.declared? c request own style e.1 =
          firstSent? style e.1 (request ++ own) := by
        cases style <;> first | rfl | exact absurd rfl hstyle
      obtain rfl := Option.some.inj (hq.symm.trans (hp'.symm.trans hp))
      simp [hfree] at hfixed
  · rintro ⟨name, p, q, hopen, hp, hfixed, hnone, hfound, hfree⟩
    obtain ⟨e, he, rfl⟩ := List.mem_map.1 (hfilled name hopen)
    obtain ⟨q', hq', hcontributes⟩ := htakes.template e he
    refine ⟨.template, e, he, ?_, p, ?_, hfixed⟩
    · cases hq' with
      | request hfirst => cases hnone.symm.trans hfirst
      | placeholder _ _ hfound' =>
        obtain rfl := Except.ok.inj (hfound.symm.trans hfound')
        exact hcontributes.isSome_argument?_iff.2 hfree
    · rw [Resolution.declared?, hnone, Option.none_or]
      exact hp

/-! ## Accessors -/

/-- Each accessor of a client is that of a resource. -/
theorem Built.exists_accessor_made {m : ClientModule} (h : Built env m) {a : Accessor}
    (ha : a ∈ m.accessors) : ∃ c ∈ env.resolution.containers, ∃ res, c.here.holder = .resource res ∧
      ∃ inner inner' base wanted, Yields (accessor env inner c res base wanted) (a, inner') := by
  have hmade : ∀ {scope children as}, (∀ x ∈ children, x.1 ∈ env.resolution.containers ∧
      x.1.here.holder = .resource x.2.1) → Yields (namedAccessors env scope children) as → a ∈ as →
      ∃ c ∈ env.resolution.containers, ∃ res, c.here.holder = .resource res ∧
        ∃ inner inner' base wanted, Yields (accessor env inner c res base wanted) (a, inner') := by
    intro scope children as hchildren has ha
    obtain ⟨x, hx, inner, inner', wanted, hyields⟩ := namedAccessors_mem has a ha
    exact ⟨x.1, (hchildren x hx).1, x.2.1, (hchildren x hx).2, inner, inner',
      x.2.2, wanted, hyields⟩
  rcases List.mem_append.1 ha with ha | ha
  · obtain ⟨cls, hcls, ha⟩ := List.mem_flatMap.1 ha
    obtain ⟨c, hclass⟩ := h.exists_classMade hcls
    obtain ⟨methods, scope, -, -, haccessors⟩ := hclass.members
    refine hmade (fun x hx => ?_) haccessors ha
    obtain ⟨hmem, hres⟩ := mem_withResources hx
    exact ⟨h.containers ▸ List.mem_of_mem_filter hmem, hres⟩
  · obtain ⟨accessors, haccessors, hentry⟩ := h.entry.bind
    obtain ⟨doc, -, hentry⟩ := hentry.bind
    rw [← hentry.pure] at ha
    refine hmade (fun x hx => ?_) haccessors ha
    obtain ⟨group, -, hx⟩ := List.mem_flatMap.1 hx
    obtain ⟨hmem, hres⟩ := mem_withResources hx
    exact ⟨h.containers ▸ List.mem_of_mem_filter hmem, hres⟩

end Build

/-- An accessor leaves a fixed param to its caller just if a placeholder of its path is declared by
one. -/
theorem Accessor.leavesFixed_iff {r : Resolution} {c : Container}
    {placeholders : List String} {a : Accessor}
    (h : a.args.map (·.placeholder) = declaredPlaceholders r (c.here :: c.above) placeholders) :
    a.LeavesFixed r c ↔
      ∃ name ∈ placeholders, ∃ p, r.declaration? (c.here :: c.above) name = some p ∧
        p.fixed.isSome := by
  constructor
  · rintro ⟨arg, harg, hfixed⟩
    have hmem : arg.placeholder ∈ declaredPlaceholders r (c.here :: c.above) placeholders :=
      h ▸ List.mem_map_of_mem harg
    exact ⟨arg.placeholder, List.mem_of_mem_filter hmem, hfixed⟩
  · rintro ⟨name, hname, p, hp, hfixed⟩
    have hdeclares : Declares r (c.here :: c.above) name := declares_iff_isSome.2 (by rw [hp]; rfl)
    have hmem : name ∈ a.args.map (·.placeholder) :=
      h ▸ List.mem_filter.2 ⟨hname, by simpa using hdeclares⟩
    obtain ⟨arg, harg, rfl⟩ := List.mem_map.1 hmem
    exact ⟨arg, harg, p, hp, hfixed⟩

/-! ## Clients -/

/-- Where a client leaves fixed params to its callers. Each value that an operation sends is made of
the param that is taken for it, so of its literal if this is fixed; what is left are placeholders
that are open although a resource declares them. Each accessor has an argument for every declared
placeholder of the path of its resource, and so for those that are fixed. -/
theorem fixed_left_iff {r : Resolution} {table : TypeTable} {config : ClientConfig}
    {s t : List Notice} {m : ClientModule} (h : Gives (buildModule r table config) s m t) :
    ∃ classNames, let env : Build.Env := ⟨r, table, config, classNames, r.containers⟩
      List.Forall₂ (fun c cls => ∃ methods, r.methods c = .ok methods ∧
        List.Forall₂ (fun method op => ∃ request own,
          ((method.value.request.map (·.params)).getD []).mapM r.param = .ok request ∧
          c.here.holder.params.mapM r.param = .ok own ∧ op.Takes env c methods request own ∧
          (op.LeavesFixed r c request own ↔ ∃ name p q, LeftOpen r c name ∧
            r.declaration? (c.here :: c.above) name = some p ∧ p.fixed.isSome ∧
            firstSent? .template name request = none ∧
            Build.placeholderDecl env methods name = .ok q ∧ q.fixed = none))
              methods cls.operations)
        r.classOrder m.classes ∧
      ∀ a ∈ m.accessors, ∃ c ∈ r.containers, ∃ res, c.here.holder = .resource res ∧
        classNames.lookup c.place = some a.target ∧
        a.args.map (·.placeholder) = declaredPlaceholders r (c.here :: c.above) res.placeholders ∧
        (a.LeavesFixed r c ↔ ∃ name ∈ res.placeholders, ∃ p,
          r.declaration? (c.here :: c.above) name = some p ∧ p.fixed.isSome) := by
  obtain ⟨classNames, hbuilt⟩ := Build.built_of_yields h.yields
  have htypes : ∀ c ∈ r.classOrder, TypesOutermost (c.here :: c.above) := fun c hc =>
    r.typesOutermost c (Resolution.mem_classOrder.1 hc)
  refine ⟨classNames, ((List.forall₂_and_left _ _).2 ⟨htypes, hbuilt.classes⟩).imp ?_,
    fun a ha => ?_⟩
  · rintro c cls ⟨hc, hcls⟩
    obtain ⟨methods, scope, hmethods, hops, -⟩ := (Build.classMade_of_yields hcls).members
    refine ⟨methods, Result.mapError_ok.1 hmethods, (Build.operations_forall₂ hops).imp ?_⟩
    rintro method op ⟨inner, inner', hop⟩
    obtain ⟨request, own, hrequest, hown, htakes⟩ := Build.operation_takes hc hop
    obtain ⟨-, left, hleft, -, hfilled, -⟩ := Build.operation_fills hop
    have hleaves :=
      Build.leavesFixed_iff htakes fun name hopen => hfilled ((Build.mem_pending hc hleft).2 hopen)
    exact ⟨request, own, Build.paramsOf_ok hrequest, Build.paramsOf_ok hown, htakes, hleaves⟩
  · obtain ⟨c, hc, res, hres, inner, inner', base, wanted, hmade⟩ := hbuilt.exists_accessor_made ha
    have hargs := Build.accessor_placeholders hmade
    exact ⟨c, hc, res, hres, Build.classAt_ok.1 (Build.accessor_yields hmade).2.1, hargs,
      Accessor.leavesFixed_iff hargs⟩

/-- A resource whose path has a fixed param and an open placeholder; below it one resource fixes the
latter, and the method of the other one does so. -/
def fixedParams : Application :=
  let param (name : String) (style : ParamStyle) (fixed : Option String) : ParamItem :=
    .inline { name, style, fixed }
  let asking (verb : String) (params : List ParamItem) : MethodItem :=
    .inline ⟨verb, none, some ⟨params, [], []⟩, [], []⟩
  let below (path : String) (params : List ParamItem) (method : MethodItem) : Resource :=
    ⟨none, some path, [], formMediaType, params, [method], [], []⟩
  let outer : Resource :=
    ⟨none, some "a/{x}/{z}", [], formMediaType, [param "z" .template (some "9")],
    [asking "POST" [param "x" .template none]],
    [below "b" [param "x" .template (some "1"), param "v" .query (some "2")] (asking "GET" []),
      below "c" [] (asking "GET" [param "x" .template (some "3")])], []⟩
  ⟨"http://h/d", [], [], [⟨some "http://h/", [outer]⟩], [], [], [], []⟩

theorem fixed_left_iff_fixedParams :
    let r : Resolution := ⟨fixedParams, [], [("http://h/d", fixedParams)]⟩
    ∃ m t, Gives (buildModule r ⟨{ label := "module" }, [], []⟩ {}) [] m t ∧
      m.classes.map (fun cls => cls.operations.map fun op => op.template ++ op.query) =
        [[[("x", .argument "x")]], [[("x", .argument "x"), ("v", .literal (.text "2"))]],
          [[("x", .literal (.text "3"))]]] ∧
      ∃ a ∈ m.accessors, a.args.map (·.placeholder) = ["z"] ∧ ∃ c ∈ r.containers,
        a.LeavesFixed r c := by
  intro r
  obtain ⟨m, t, h, hsent⟩ :=
    exists_gives_of_any (x := buildModule r ⟨{ label := "module" }, [], []⟩ {}) (s := [])
    (p := fun m => m.classes.map (fun cls => cls.operations.map fun op => op.template ++ op.query) =
      [[[("x", .argument "x")]], [[("x", .argument "x"), ("v", .literal (.text "2"))]],
        [[("x", .literal (.text "3"))]]] ∧
      (m.accessors.map fun a => a.args.map (·.placeholder)) = [[], [], ["z"]]) (by decide +kernel)
  obtain ⟨hoperations, haccessors⟩ := of_decide_eq_true hsent
  obtain ⟨a, ha, hz⟩ : ∃ a ∈ m.accessors, a.args.map (·.placeholder) = ["z"] :=
    List.mem_map.1 (haccessors ▸ by simp)
  refine ⟨m, t, h, hoperations, a, ha, hz, ?_⟩
  obtain ⟨classNames, -, hall⟩ := fixed_left_iff h
  obtain ⟨c, hc, res, -, -, hargs, hleaves⟩ := hall a ha
  have hfixed : ∀ c ∈ r.containers,
      ((r.declaration? (c.here :: c.above) "z").any (·.fixed.isSome)) = true := by
    decide +kernel
  have hmem : "z" ∈ declaredPlaceholders r (c.here :: c.above) res.placeholders := hargs ▸ hz ▸ by
    simp
  obtain ⟨p, hp, hpfixed⟩ := (Option.any_eq_true _ _).1 (hfixed c hc)
  exact ⟨c, hc, hleaves.2 ⟨"z", List.mem_of_mem_filter hmem, p, hp, hpfixed⟩⟩

end Wadl
