import Wadl.Proofs.Client.Names
import Wadl.Proofs.Client.Placeholders

/-!
# What an operation sends

The params of a request and then those of its container are taken into a draft one after another
(`Build.Draft.Sends`): each style has the names that are sent in it, each once and in their order,
and the first param of a name gives its value, which is a literal if it is fixed and else an
argument (`Build.Contributes`). A param that is supplied adds one value and at most one argument
(`Build.supply_yields`), so that the arguments are those that the values use. `params_sent` puts
this together for all operations of a client.
-/

namespace Wadl

/-! ## Styles -/

/-- The style in which values are sent: plain ones are sent in the query. -/
def ParamStyle.sent : ParamStyle → ParamStyle
  | .plain => .query
  | style => style

/-- The names of the params that are sent in a style. -/
def sentNames (style : ParamStyle) (ps : List Param) : List String :=
  (ps.filter (·.style.sent = style.sent)).map (·.name)

/-- The first param with a name that is sent in a style. -/
def firstSent? (style : ParamStyle) (name : String) (ps : List Param) : Option Param :=
  ps.find? fun p => p.style.sent = style.sent ∧ p.name = name

/-- The names that are sent come param by param. -/
theorem sentNames_append (style : ParamStyle) (ps qs : List Param) :
    sentNames style (ps ++ qs) = sentNames style ps ++ sentNames style qs := by
  rw [sentNames, List.filter_append, List.map_append]
  rfl

theorem sentNames_singleton (style : ParamStyle) (p : Param) :
    sentNames style [p] = if p.style.sent = style.sent then [p.name] else [] := by
  by_cases h : p.style.sent = style.sent <;> simp [sentNames, h]

theorem firstSent?_eq_none {style : ParamStyle} {name : String} {ps : List Param}
    (h : name ∉ sentNames style ps) : firstSent? style name ps = none := by
  refine List.find?_eq_none.2 fun p hp => ?_
  simp only [decide_eq_true_eq]
  rintro ⟨hsent, rfl⟩
  exact h (List.mem_map_of_mem (List.mem_filter.2 ⟨hp, by simpa using hsent⟩))

/-- A param that is sent first stays so when others follow. -/
theorem firstSent?_append_of_some {style : ParamStyle} {name : String} {ps : List Param} {p : Param}
    (h : firstSent? style name ps = some p) (qs : List Param) :
    firstSent? style name (ps ++ qs) = some p := by
  rw [firstSent?, List.find?_append, ← firstSent?, h, Option.some_or]

/-- The argument that a value passes on. -/
def ValueExpr.argument? : ValueExpr → Option String
  | argument name => some name
  | _ => none

/-- The arguments that the values of an operation pass on, style by style. -/
def Operation.used (op : Operation) : List String :=
  (op.template ++ op.matrix ++ op.query ++ op.header).filterMap (·.2.argument?)

namespace Build

variable {env : Env}

/-! ## Values -/

theorem paramsOf_ok {items : List ParamItem} {ps : List Param} (h : paramsOf env items = .ok ps) :
    items.mapM env.resolution.param = .ok ps :=
  Result.mapM_ok.2 ((Result.mapM_ok.1 h).imp fun _ _ => Result.mapError_ok.1)

variable (env) in
/-- The name of the argument for a param. -/
def argumentName (p : Param) : String := (newScope env "").escaped (nameOf env p.name)

variable (env) in
/-- The value that a param contributes: its literal if it is fixed, and else an argument that has
its name. -/
inductive Contributes (args : List String) (p : Param) : ValueExpr → Prop where
  | literal {text source : String} {type : ValueType} {v : ValueExpr} (hfixed : p.fixed = some text)
      (htype : valueType env p source = .ok type) (hv : valueExpr env p text type source = .ok v) :
      Contributes args p v
  | argument (hfree : p.fixed = none) (hmem : argumentName env p ∈ args) :
      Contributes args p (.argument (argumentName env p))

/-- More arguments keep each contribution. -/
theorem Contributes.mono {args args' : List String} {p : Param} {v : ValueExpr}
    (h : Contributes env args p v) (hsub : args ⊆ args') : Contributes env args' p v := by
  cases h with
  | literal hfixed htype hv => exact .literal hfixed htype hv
  | argument hfree hmem => exact .argument hfree (hsub hmem)

/-- A literal passes no argument on. -/
theorem valueExpr_argument? {p : Param} {text source : String} {type : ValueType} {v : ValueExpr}
    (h : valueExpr env p text type source = .ok v) : v.argument? = none := by
  unfold valueExpr at h
  split at h
  · obtain ⟨l, -, rfl⟩ := Result.map_ok.1 h
    rfl
  · split at h
    · rw [← Except.ok.inj h]
      rfl
    · cases h

/-! ## Drafts -/

/-- The arguments that the values of a draft pass on, style by style. -/
def Draft.used (d : Draft) : List String :=
  (d.template ++ d.matrix ++ d.query ++ d.header).filterMap (·.2.argument?)

/-- An entry goes to the values of its style, and to no others. -/
theorem Draft.push_values (d : Draft) (style style' : ParamStyle) (entry : String × ValueExpr) :
    (d.push style entry).values style' =
      if style.sent = style'.sent then d.values style' ++ [entry] else d.values style' := by
  cases style <;> cases style' <;> rfl

theorem Draft.push_args (d : Draft) (style : ParamStyle) (entry : String × ValueExpr) :
    (d.push style entry).args = d.args := by
  cases style <;> rfl

theorem Draft.push_scope (d : Draft) (style : ParamStyle) (entry : String × ValueExpr) :
    (d.push style entry).scope = d.scope := by
  cases style <;> rfl

theorem Draft.push_used (d : Draft) (style : ParamStyle) (entry : String × ValueExpr) :
    (d.push style entry).used.Perm (d.used ++ entry.2.argument?.toList) := by
  have hentry : [entry].filterMap (·.2.argument?) = entry.2.argument?.toList := by
    cases h : entry.2.argument? <;> simp [h]
  -- what is added at the end of one style moves behind the styles after it
  cases style <;> simp only [push, used, List.filterMap_append, hentry] <;> grind

/-- The argument for a param has its name. -/
theorem argument_yields {scope scope' : NameScope} {p : Param} {type : ValueType} {source : String}
    {required : Bool} {arg : Argument} (hscope : scope.reserved = reservedWords)
    (h : Yields (argument env scope p type source required) (arg, scope')) :
    scope.Takes [arg.name] scope' ∧ arg.name = argumentName env p := by
  have hclaim : claim scope (nameOf env p.name) source = .ok (arg.name, scope') := by
    unfold argument at h
    obtain ⟨⟨name, inner⟩, hname, h⟩ := h.bind
    simp only at h
    split at h
    all_goals
      obtain ⟨doc, -, h⟩ := h.bind
      split at h
      · obtain ⟨rfl, rfl⟩ := Prod.mk.inj h.pure
        exact hname.lift
      · split at h
        · obtain ⟨v, -, h⟩ := h.bind
          obtain ⟨rfl, rfl⟩ := Prod.mk.inj h.pure
          exact hname.lift
        · obtain ⟨rfl, rfl⟩ := Prod.mk.inj h.pure
          exact hname.lift
  obtain ⟨htakes, hgiven⟩ := claim_takes hclaim
  refine ⟨htakes, hgiven.trans ?_⟩
  rw [argumentName, NameScope.escaped, NameScope.escaped, hscope]
  rfl

/-- A param that is supplied adds a value to its style, and at most one argument, which the value
passes on. -/
theorem supply_yields {d d' : Draft} {p : Param} {source : String} {required : Bool}
    (hscope : d.scope.reserved = reservedWords) (h : Yields (supply env d p source required) d') :
    ∃ v added, Contributes env (added.map (·.name)) p v ∧ d'.args = d.args ++ added ∧
      (∀ style, d'.values style =
        if p.style.sent = style.sent then d.values style ++ [(p.name, v)] else d.values style) ∧
      d.scope.Takes (added.map (·.name)) d'.scope ∧
      d'.used.Perm (d.used ++ added.map (·.name)) := by
  obtain ⟨type, htype, h⟩ := h.bind
  cases hfixed : p.fixed with
  | some text =>
    rw [hfixed] at h
    obtain ⟨v, hv, h⟩ := h.bind
    rw [← h.pure]
    refine ⟨v, [], .literal hfixed htype.lift hv.lift, ?_, fun style => d.push_values _ _ _, ?_, ?_⟩
    · rw [Draft.push_args, List.append_nil]
    · rw [Draft.push_scope]
      exact .nil _
    · have hused := d.push_used p.style (p.name, v)
      rwa [valueExpr_argument? hv.lift] at hused
  | none =>
    rw [hfixed] at h
    obtain ⟨⟨arg, scope⟩, harg, h⟩ := h.bind
    rw [← h.pure]
    obtain ⟨htakes, hname⟩ := argument_yields hscope harg
    refine ⟨.argument arg.name, [arg], ?_, rfl, fun style => d.push_values _ _ _, htakes, ?_⟩
    · rw [hname]
      exact .argument hfixed (by simp [hname])
    · exact d.push_used p.style (p.name, .argument arg.name)

/-- The params that items stand for are taken one after another. -/
theorem foldlM_params (Inv : List Param → Draft → Prop) {f : Draft → ParamItem → Generating Draft}
    (step : ∀ d d' item ps, Inv ps d → Yields (f d item) d' → ∃ p, paramOf env item = .ok p ∧
      Inv (ps ++ [p]) d') :
    ∀ {items : List ParamItem} {ps : List Param} {d d' : Draft},
      Inv ps d → Yields (items.foldlM f d) d' →
      ∃ qs, paramsOf env items = .ok qs ∧ Inv (ps ++ qs) d'
  | [], ps, d, d', h, hfold => by
    rw [List.foldlM_nil] at hfold
    rw [← hfold.pure]
    exact ⟨[], rfl, by rwa [List.append_nil]⟩
  | item :: items, ps, d, d', h, hfold => by
    rw [List.foldlM_cons] at hfold
    obtain ⟨e, he, hfold⟩ := hfold.bind
    obtain ⟨p, hp, hsends⟩ := step d e item ps h he
    obtain ⟨qs, hqs, hsends⟩ := foldlM_params Inv step hsends hfold
    refine ⟨p :: qs, ?_, by rwa [List.append_assoc] at hsends⟩
    rw [paramsOf, List.mapM_cons, hp]
    exact Result.bind_ok.2 ⟨p, rfl, Result.bind_ok.2 ⟨qs, hqs, rfl⟩⟩

variable (env) in
/-- A draft after some params were taken into it. Each style has the names that are sent in it, each
once, and the first param of a name gives its value; the arguments have different names, and are
those that the values pass on. -/
structure Draft.Sends (label : String) (ps : List Param) (d : Draft) : Prop where
  keys : ∀ style, style ≠ .template → (d.values style).map (·.1) = (sentNames style ps).eraseDups
  entries : ∀ style, style ≠ .template → ∀ e ∈ d.values style,
    ∃ p, firstSent? style e.1 ps = some p ∧ Contributes env (d.args.map (·.name)) p e.2
  takes : (newScope env label).Takes (d.args.map (·.name)) d.scope
  used : d.used.Perm (d.args.map (·.name))

namespace Draft.Sends

variable {label : String} {ps : List Param} {d d' : Draft} {p : Param} {source : String}

/-- An empty draft sends no params. -/
theorem empty (label : String) : ({ scope := newScope env label } : Draft).Sends env label [] where
  keys style _ := by cases style <;> rfl
  entries style _ e he := by cases style <;> cases he
  takes := .nil _
  used := .refl _

/-- A param that adds no name leaves a draft as it is. -/
theorem keep (h : d.Sends env label ps)
    (hold : ∀ style, style ≠ .template → p.style.sent = style.sent → p.name ∈ sentNames style ps) :
    d.Sends env label (ps ++ [p]) where
  keys style hstyle := by
    rw [h.keys style hstyle, sentNames_append, sentNames_singleton]
    split
    · rename_i hsent
      simp [List.eraseDups_append, List.removeAll, hold style hstyle hsent]
    · rw [List.append_nil]
  entries style hstyle e he := by
    obtain ⟨q, hq, hcontributes⟩ := h.entries style hstyle e he
    exact ⟨q, firstSent?_append_of_some hq _, hcontributes⟩
  takes := h.takes
  used := h.used

theorem sent_eq_template {style : ParamStyle} (h : ParamStyle.template.sent = style.sent) :
    style = .template := by
  cases style <;> first | rfl | cases h

/-- A template param that is left to the path sends nothing else. -/
theorem keep_template (h : d.Sends env label ps) (hp : p.style = .template) :
    d.Sends env label (ps ++ [p]) :=
  h.keep fun _ hstyle hsent => absurd (sent_eq_template (hp ▸ hsent)) hstyle

/-- A param that is supplied adds its value. -/
theorem supply {required : Bool} (h : d.Sends env label ps)
    (hnew : ∀ style, style ≠ .template → p.style.sent = style.sent → p.name ∉ sentNames style ps)
    (hsupply : Yields (Build.supply env d p source required) d') :
    d'.Sends env label (ps ++ [p]) := by
  obtain ⟨v, added, hcontributes, hargs, hvalues, htakes, hused⟩ :=
    supply_yields h.takes.reserved hsupply
  have hargs' : d'.args.map (·.name) = d.args.map (·.name) ++ added.map (·.name) := by
    rw [hargs, List.map_append]
  refine ⟨fun style hstyle => ?_, fun style hstyle e he => ?_, ?_, ?_⟩
  · rw [hvalues, sentNames_append, sentNames_singleton]
    split
    · rename_i hsent
      rw [List.map_append, h.keys style hstyle, List.eraseDups_append]
      simp [List.removeAll, hnew style hstyle hsent, List.eraseDups_cons]
    · rw [h.keys style hstyle, List.append_nil]
  · have hold : e ∈ d.values style → ∃ q, firstSent? style e.1 (ps ++ [p]) = some q ∧
        Contributes env (d'.args.map (·.name)) q e.2 := by
      intro he
      obtain ⟨q, hq, hcontributes⟩ := h.entries style hstyle e he
      exact ⟨q, firstSent?_append_of_some hq _,
        hcontributes.mono (hargs' ▸ List.subset_append_left _ _)⟩
    rw [hvalues] at he
    split at he
    · rename_i hsent
      rcases List.mem_append.1 he with he | he
      · exact hold he
      · obtain rfl := List.mem_singleton.1 he
        refine ⟨p, ?_, hcontributes.mono (hargs' ▸ List.subset_append_right _ _)⟩
        have hnone := firstSent?_eq_none (hnew style hstyle hsent)
        rw [firstSent?, List.find?_append, ← firstSent?, hnone, Option.none_or]
        simp [hsent]
    · exact hold he
  · rw [hargs']
    exact h.takes.append htakes
  · rw [hargs']
    exact hused.trans (h.used.append_right _)

/-- A template param that is supplied adds to no other style. -/
theorem supply_template {required : Bool} (h : d.Sends env label ps) (hp : p.style = .template)
    (hsupply : Yields (Build.supply env d p source required) d') : d'.Sends env label ps := by
  obtain ⟨v, added, -, hargs, hvalues, htakes, hused⟩ := supply_yields h.takes.reserved hsupply
  have hargs' : d'.args.map (·.name) = d.args.map (·.name) ++ added.map (·.name) := by
    rw [hargs, List.map_append]
  have hsame : ∀ style, style ≠ .template → d'.values style = d.values style :=
    fun style hstyle => by
    rw [hvalues, if_neg fun hsent => hstyle (sent_eq_template (hp ▸ hsent))]
  refine ⟨fun style hstyle => ?_, fun style hstyle e he => ?_, ?_, ?_⟩
  · rw [hsame style hstyle, h.keys style hstyle]
  · rw [hsame style hstyle] at he
    obtain ⟨q, hq, hcontributes⟩ := h.entries style hstyle e he
    exact ⟨q, hq, hcontributes.mono (hargs' ▸ List.subset_append_left _ _)⟩
  · rw [hargs']
    exact h.takes.append htakes
  · rw [hargs']
    exact hused.trans (h.used.append_right _)

theorem addParam_template {left : List String} {isType : Bool} (h : d.Sends env label ps)
    (hp : p.style = .template) (hadd : Yields (addParam env left isType d p source) d') :
    d'.Sends env label ps := by
  rw [addParam, if_pos hp] at hadd
  split at hadd
  · obtain ⟨-, -, hadd⟩ := hadd.bind
    rwa [← hadd.pure]
  · have hfilled : ({ d with filled := p.name :: d.filled } : Draft).Sends env label ps := by
      refine ⟨fun style hstyle => ?_, fun style hstyle => ?_, h.takes, h.used⟩
      · rw [← h.keys style hstyle]
        cases style <;> rfl
      · have hentries := h.entries style hstyle
        cases style <;> exact hentries
    exact hfilled.supply_template hp hadd

/-- Each param is taken after those before it. -/
theorem addParam {left : List String} {isType : Bool} (h : d.Sends env label ps)
    (hadd : Yields (Build.addParam env left isType d p source) d') :
    d'.Sends env label (ps ++ [p]) := by
  by_cases hp : p.style = .template
  · exact (h.addParam_template hp hadd).keep_template hp
  · have hmem : ((d.values p.style).any (·.1 = p.name)) = true ↔ p.name ∈ sentNames p.style ps := by
      rw [← List.mem_eraseDups, ← h.keys _ hp, List.any_eq_true]
      simp
    have hsame : ∀ style, p.style.sent = style.sent → sentNames style ps = sentNames p.style ps :=
      fun style hsent => by rw [sentNames, sentNames, hsent]
    rw [Build.addParam, if_neg hp] at hadd
    split at hadd
    · rename_i hknown
      rw [← hadd.pure]
      exact h.keep fun style _ hsent => hsame style hsent ▸ hmem.1 hknown
    · rename_i hnew
      exact h.supply (fun style _ hsent => hsame style hsent ▸ mt hmem.2 hnew) hadd

/-- Adding the params of a request sends them after those before. -/
theorem addRequest {left : List String} {isType : Bool} {name : String} {items : List ParamItem}
    (h : d.Sends env label ps) (hadd : Yields (Build.addRequest env left isType name d items) d') :
    ∃ qs, paramsOf env items = .ok qs ∧ d'.Sends env label (ps ++ qs) := by
  refine foldlM_params (Draft.Sends env label) (fun d d' item ps h hstep => ?_) h hadd
  obtain ⟨p, hp, hstep⟩ := hstep.bind
  exact ⟨p, hp.lift, h.addParam hstep⟩

/-- Adding shared params sends those too. -/
theorem addShared {left : List String} {isType : Bool} {className : String} {items : List ParamItem}
    (h : d.Sends env label ps)
    (hadd : Yields (Build.addShared env left isType className d items) d') :
    ∃ qs, paramsOf env items = .ok qs ∧ d'.Sends env label (ps ++ qs) := by
  refine foldlM_params (Draft.Sends env label) (fun d d' item ps h hstep => ?_) h hadd
  obtain ⟨p, hp, hstep⟩ := hstep.bind
  split at hstep
  · rename_i htemplate
    rw [← hstep.pure]
    exact ⟨p, hp.lift, h.keep_template htemplate⟩
  · exact ⟨p, hp.lift, h.addParam hstep⟩

/-- What fills a placeholder is a template param. -/
theorem addPlaceholders {left : List String} {isType : Bool} {className : String}
    {methods : List (Placed Method)} (h : d.Sends env label ps)
    (hadd : Yields (Build.addPlaceholders env left isType className methods d) d') :
    d'.Sends env label ps := by
  refine Yields.foldlM_keeps (fun d => d.Sends env label ps)
    (fun d d' placeholder _ h hstep => ?_) h hadd
  rw [addPlaceholder] at hstep
  split at hstep
  · rwa [← hstep.pure]
  · obtain ⟨p, hp, hstep⟩ := hstep.bind
    exact h.addParam_template (placeholderDecl_ok hp.lift).1 hstep

end Draft.Sends

/-- The body is one more argument, which no style uses. -/
theorem sentBody_yields {m : Placed Method} {d d' : Draft} {body : Option SentBody}
    (h : sentBody env m d = .ok (body, d')) :
    d'.args.map (·.name) = d.args.map (·.name) ++ (body.map (·.argument)).toList ∧
      d.scope.Takes (body.map (·.argument)).toList d'.scope ∧
      (∀ style, d'.values style = d.values style) ∧ d'.used = d.used := by
  rw [sentBody] at h
  split at h
  · obtain ⟨rfl, rfl⟩ := Prod.mk.inj (Result.pure_ok.1 h)
    exact ⟨by simp, .nil _, fun _ => rfl, rfl⟩
  · obtain ⟨reps, -, h⟩ := Result.bind_ok.1 h
    split at h
    · obtain ⟨rfl, rfl⟩ := Prod.mk.inj (Result.pure_ok.1 h)
      exact ⟨by simp, .nil _, fun _ => rfl, rfl⟩
    · obtain ⟨⟨name, scope⟩, hname, h⟩ := Result.bind_ok.1 h
      obtain ⟨rfl, rfl⟩ := Prod.mk.inj (Result.pure_ok.1 h)
      refine ⟨by simp, (claim_takes hname).1, fun style => ?_, rfl⟩
      cases style <;> rfl

end Build

/-! ## Operations -/

/-- What an operation sends of the params of its request and of its container. Each style has the
names of the request's params that are sent in it, and then those of the container's that the
request does not have in this style, each once and in their order. The first param of a name
contributes its literal if it is fixed, and else an argument. The arguments have different names,
and all but the body are passed on in one style, once. -/
structure Operation.Sends (env : Build.Env) (request own : List Param) (op : Operation) : Prop where
  keys : ∀ style, style ≠ .template → (op.values style).map (·.1) =
    (sentNames style request).eraseDups ++
    ((sentNames style own).filter (· ∉ sentNames style request)).eraseDups
  entries : ∀ style, style ≠ .template → ∀ e ∈ op.values style,
    ∃ p, firstSent? style e.1 (request ++ own) = some p ∧
      Build.Contributes env (op.args.map (·.name)) p e.2
  nodup : (op.args.map (·.name)).Nodup
  used : (op.args.map (·.name)).Perm (op.used ++ (op.body.map (·.argument)).toList)

namespace Build

variable {env : Env}

/-- An operation sends the params of its request, of its own resource and of those around it, in
this order. -/
theorem operation_sends {c : Container} {className : String} {methods : List (Placed Method)}
    {scope scope' : NameScope} {m : Placed Method} {op : Operation}
    (h : Yields (operation env c className methods scope m) (op, scope')) :
    ∃ request own, paramsOf env ((m.value.request.map (·.params)).getD []) = .ok request ∧
      paramsOf env c.here.holder.params = .ok own ∧ op.Sends env request own := by
  obtain ⟨left, d₁, d₂, d₃, d₄, hsteps, -, -, -, hargs, htemplate, hmatrix, hquery, hheader⟩ :=
    operation_yields h
  obtain ⟨request, hrequest, h₁⟩ := (Draft.Sends.empty _).addRequest hsteps.request
  obtain ⟨own, hown, h₃⟩ := (h₁.addPlaceholders hsteps.placeholders).addShared hsteps.shared
  obtain ⟨hbody, htakes, hvalues, hused⟩ := sentBody_yields hsteps.body
  rw [List.nil_append] at h₃
  have hop : ∀ style, op.values style = d₃.values style := by
    intro style
    rw [← hvalues]
    cases style <;> assumption
  refine ⟨request, own, hrequest, hown, fun style hstyle => ?_, fun style hstyle e he => ?_, ?_, ?_⟩
  · rw [hop, h₃.keys style hstyle, sentNames_append, List.eraseDups_append, List.removeAll]
    simp
  · rw [hop] at he
    obtain ⟨p, hp, hcontributes⟩ := h₃.entries style hstyle e he
    refine ⟨p, hp, hcontributes.mono ?_⟩
    rw [hargs, hbody]
    exact List.subset_append_left _ _
  · rw [hargs, hbody]
    exact (h₃.takes.append htakes).nodup
  · have hsame : op.used = d₃.used := by
      rw [← hused, Operation.used, htemplate, hmatrix, hquery, hheader]
      rfl
    rw [hargs, hbody, hsame]
    exact h₃.used.symm.append_right _

end Build

/-! ## Clients -/

/-- What the operations of a client with the types of its description send: in each class there is
one for each method of the container. It sends the params of its request and of the container as
they are declared, and this is what its lines pass on to the functions that build the URL and the
headers. -/
theorem params_sent {r : Resolution} {first config : ClientConfig} {table : TypeTable}
    {s s' t t' : List Notice} {m : ClientModule} (hu : Gives (unify r first) s table s')
    (h : Gives (buildModule r table config) t m t') :
    ∃ classNames, let env : Build.Env := ⟨r, table, config, classNames, r.containers⟩
      List.Forall₂ (fun c cls => ∃ methods, r.methods c = .ok methods ∧
        List.Forall₂ (fun method op => ∃ request own,
          ((method.value.request.map (·.params)).getD []).mapM r.param = .ok request ∧
          c.here.holder.params.mapM r.param = .ok own ∧ op.Sends env request own ∧
          ∀ isAsync style, passed? (op.lines isAsync) style = some (op.written style))
            methods cls.operations)
        r.classOrder m.classes := by
  obtain ⟨classNames, hbuilt⟩ := Build.built_of_yields h.yields
  have htypes : Yields
      (unify (⟨r, table, config, classNames, r.containers⟩ : Build.Env).resolution first)
      (⟨r, table, config, classNames, r.containers⟩ : Build.Env).table := hu.yields
  refine ⟨classNames, hbuilt.classes.imp fun c cls hcls => ?_⟩
  obtain ⟨methods, scope, hmethods, hops, -⟩ := (Build.classMade_of_yields hcls).members
  refine ⟨methods, Result.mapError_ok.1 hmethods, (Build.operations_forall₂ hops).imp ?_⟩
  rintro method op ⟨inner, inner', hop⟩
  obtain ⟨request, own, hrequest, hown, hsends⟩ := Build.operation_sends hop
  exact ⟨request, own, Build.paramsOf_ok hrequest, Build.paramsOf_ok hown, hsends,
    (Build.readable_operation htypes hop).passed?_lines⟩

/-- A resource whose method declares a param twice, and shares one with the resource. -/
def sharedParams : Application :=
  let param (name : String) (style : ParamStyle) (fixed : Option String) : ParamItem :=
    .inline { name, style, fixed }
  let request : Request :=
    ⟨[param "q" .query none, param "q" .plain (some "1"), param "z" .plain none,
    param "m" .matrix none, param "h" .header (some "2")],
    [.inline ⟨none, some "text/plain", none, none, [], []⟩], []⟩
  let resource : Resource := ⟨none, some "r", [], formMediaType,
    [param "q" .query (some "3"), param "own" .query (some "4"), param "h" .matrix none],
    [.inline ⟨"POST", none, some request, [], []⟩], [], []⟩
  ⟨"http://h/d", [], [], [⟨some "http://h/", [resource]⟩], [], [], [], []⟩

theorem params_sent_sharedParams :
    let r : Resolution := ⟨sharedParams, [], [("http://h/d", sharedParams)]⟩
    ∃ table m s t, Gives (unify r {}) [] table s ∧ Gives (buildModule r table {}) s m t ∧
      (m.classes.map (fun cls => cls.operations.map fun op =>
        [ParamStyle.query, .matrix, .header].map (passed? (op.lines true))) =
          [[[some [("q", "q"), ("z", "z"), ("own", "'4'")], some [("m", "m"), ("h", "h")],
            some [("h", "'2'")]]]] ∧
      m.classes.map (fun cls => cls.operations.map fun op => op.args.map (·.name)) =
        [[["q", "z", "m", "h", "body"]]]) ∧
      ∃ classNames, let env : Build.Env := ⟨r, table, {}, classNames, r.containers⟩
        List.Forall₂ (fun c cls => ∃ methods, r.methods c = .ok methods ∧
          List.Forall₂ (fun method op => ∃ request own,
            ((method.value.request.map (·.params)).getD []).mapM r.param = .ok request ∧
            c.here.holder.params.mapM r.param = .ok own ∧ op.Sends env request own ∧
            ∀ isAsync style, passed? (op.lines isAsync) style = some (op.written style))
              methods cls.operations)
          r.classOrder m.classes := by
  intro r
  obtain ⟨⟨table, m⟩, t, h, hclasses⟩ := exists_gives_of_any (x := Build.typedClient r {}) (s := [])
    (p := fun x => x.2.classes.map (fun cls => cls.operations.map fun op =>
        [ParamStyle.query, .matrix, .header].map fun style => some (op.written style)) =
          [[[some [("q", "q"), ("z", "z"), ("own", "'4'")], some [("m", "m"), ("h", "h")],
            some [("h", "'2'")]]]] ∧
      x.2.classes.map (fun cls => cls.operations.map fun op => op.args.map (·.name)) =
        [[["q", "z", "m", "h", "body"]]])
    (by decide +kernel)
  obtain ⟨s, hu, hm⟩ := Build.typedClient_gives h
  obtain ⟨hwritten, hargs⟩ := of_decide_eq_true hclasses
  have hpassed : m.classes.map (fun cls => cls.operations.map fun op =>
      [ParamStyle.query, .matrix, .header].map (passed? (op.lines true))) =
        m.classes.map fun cls => cls.operations.map fun op =>
          [ParamStyle.query, .matrix, .header].map fun style => some (op.written style) :=
    List.map_congr_left fun cls hcls => List.map_congr_left fun op hop =>
      List.map_congr_left fun style _ => operations_passed hu hm cls hcls op hop true style
  exact ⟨table, m, s, t, hu, hm, ⟨hpassed.trans hwritten, hargs⟩, params_sent hu hm⟩

end Wadl
