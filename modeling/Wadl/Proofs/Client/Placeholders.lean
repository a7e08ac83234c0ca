import Mathlib.Data.List.Nodup
import Wadl.Proofs.Client.Passing

/-!
# Placeholders that operations fill

The accessor of a resource fills the placeholders of its path that a template param declares, on the
resource itself or around it. `LeftOpen r c name` says that a placeholder is left open on the way
down to a container. A draft of an operation fills each template param at most once (`Draft.Fills`);
every step of `operation` keeps this, and `addPlaceholders` leaves nothing open
(`addPlaceholders_fills`). `operation_fills` puts the steps together, and
`template_keys_iff_leftOpen` says it of the lines that are printed for the operations of a client:
the mapping that they pass on has these keys.
-/

namespace Wadl

/-! ## What is left open -/

/-- A template param with a name is declared on one of some stations. -/
def Declares (r : Resolution) (stations : List Station) (name : String) : Prop :=
  ∃ s ∈ stations, ∃ item ∈ s.holder.params, ∃ p,
    r.param item = .ok p ∧ p.style = .template ∧ p.name = name

/-- A placeholder is left open on the way down to the first of some stations: the path of a resource
among them holds it, and no template param on this resource or around it declares it. -/
def OpenOn (r : Resolution) (stations : List Station) (name : String) : Prop :=
  ∃ s above, s :: above <:+ stations ∧ ∃ resource, s.holder = .resource resource ∧
    name ∈ resource.placeholders ∧ ¬Declares r (s :: above) name

/-- A placeholder is left open on the way down to a container. -/
def LeftOpen (r : Resolution) (c : Container) (name : String) : Prop :=
  OpenOn r (c.here :: c.above) name

/-- An operation fills the placeholders for which `isLeft` holds, each once, and nothing else. -/
def Operation.FillsExactly (op : Operation) (isLeft : String → Prop) : Prop :=
  (op.template.map (·.1)).Nodup ∧ ∀ name, name ∈ op.template.map (·.1) ↔ isLeft name

/-- The lines of an operation pass on values for the placeholders for which `isLeft` holds, each
once, and for nothing else. -/
def Operation.PassesExactly (op : Operation) (isLeft : String → Prop) : Prop :=
  ∀ isAsync, ∃ entries, passed? (op.lines isAsync) .template = some entries ∧
    (entries.map (·.1)).Nodup ∧ ∀ name, name ∈ entries.map (·.1) ↔ isLeft name

/-- An operation whose lines can be read passes on values for what it fills. -/
theorem Operation.FillsExactly.passes {op : Operation} {isLeft : String → Prop}
    (h : op.FillsExactly isLeft) (hop : op.Readable) : op.PassesExactly isLeft := by
  have hkeys : (op.written .template).map (·.1) = op.template.map (·.1) := List.map_map
  refine fun isAsync => ⟨_, hop.passed?_lines isAsync .template, ?_⟩
  rw [hkeys]
  exact h

/-- Nothing stands around a resource type. -/
def TypesOutermost (stations : List Station) : Prop :=
  ∀ s above, s :: above <:+ stations → s.holder.isType → above = []

theorem typesOutermost_nil : TypesOutermost [] := by
  intro s above h
  simp at h

theorem TypesOutermost.tail {s : Station} {above : List Station}
    (h : TypesOutermost (s :: above)) : TypesOutermost above :=
  fun s' above' h' => h s' above' (h'.trans (List.suffix_cons s above))

/-- A resource may stand inside anything. -/
theorem TypesOutermost.cons {s : Station} {above : List Station} (hs : s.holder.isType = false)
    (h : TypesOutermost above) : TypesOutermost (s :: above) := by
  intro s' above' h' ht
  rcases List.suffix_cons_iff.1 h' with heq | h'
  · obtain ⟨rfl, rfl⟩ := List.cons.inj heq
    rw [hs] at ht
    cases ht
  · exact h s' above' h' ht

mutual

theorem typesOutermost_containers {above : List Station} (h : TypesOutermost above)
    (inherited : List String) (place : Place) :
    ∀ (r : Resource), ∀ c ∈ r.containers above inherited place,
      TypesOutermost (c.here :: c.above)
  | ⟨id, path, types, queryType, params, methods, resources, docs⟩, c, hc => by
    rw [Resource.containers] at hc
    rcases List.mem_cons.1 hc with rfl | hc
    · exact h.cons rfl
    · exact typesOutermost_containersBelow (h.cons rfl) _ place 0 resources c hc

theorem typesOutermost_containersBelow {above : List Station} (h : TypesOutermost above)
    (inherited : List String) (place : Place) (n : Nat) :
    ∀ (rs : List Resource), ∀ c ∈ containersBelow above inherited place n rs,
      TypesOutermost (c.here :: c.above)
  | [], c, hc => by simp [containersBelow] at hc
  | r :: rs, c, hc => by
    rw [containersBelow] at hc
    rcases List.mem_append.1 hc with hc | hc
    · exact typesOutermost_containers h inherited _ r c hc
    · exact typesOutermost_containersBelow h inherited place (n + 1) rs c hc

end

theorem ResourceType.typesOutermost (t : ResourceType) (place : Place) :
    ∀ c ∈ t.containers place, TypesOutermost (c.here :: c.above) := by
  have hroot : TypesOutermost [⟨.type t, place, [t.id]⟩] := by
    intro s above h _
    rcases List.suffix_cons_iff.1 h with heq | h
    · exact (List.cons.inj heq).2
    · simp at h
  intro c hc
  rw [ResourceType.containers] at hc
  rcases List.mem_cons.1 hc with rfl | hc
  · exact hroot
  · exact typesOutermost_containersBelow hroot _ place 0 _ c hc

/-- In a description resource types stand only around everything else. -/
theorem Resolution.typesOutermost (r : Resolution) :
    ∀ c ∈ r.containers, TypesOutermost (c.here :: c.above) := by
  intro c hc
  rw [Resolution.containers, Resolution.typeContainers, Application.resourceContainers,
    List.mem_append, List.mem_flatMap, List.mem_flatMap] at hc
  rcases hc with ⟨t, -, hc⟩ | ⟨⟨group, n⟩, -, hc⟩
  · exact t.value.typesOutermost t.place c hc
  · exact typesOutermost_containersBelow typesOutermost_nil _ _ 0 _ c hc

/-! ## What `pending` finds -/

namespace Build

variable {env : Env}

theorem paramOf_ok {item : ParamItem} {p : Param} :
    paramOf env item = .ok p ↔ env.resolution.param item = .ok p := by
  rw [paramOf, Result.mapError_ok]

theorem mem_scopeParams {p : Param} :
    ∀ {stations : List Station} {ps : List Param}, scopeParams env stations = .ok ps →
      (p ∈ ps ↔ ∃ s ∈ stations, ∃ item ∈ s.holder.params, env.resolution.param item = .ok p)
  | [], ps, h => by
    cases h
    simp
  | s :: above, ps, h => by
    rw [scopeParams] at h
    obtain ⟨own, hown, h⟩ := Result.bind_ok.1 h
    obtain ⟨rest, hrest, h⟩ := Result.bind_ok.1 h
    obtain rfl := Result.pure_ok.1 h
    have hmem : p ∈ own ↔ ∃ item ∈ s.holder.params, env.resolution.param item = .ok p := by
      rw [Result.mem_mapM_ok hown]
      simp only [paramOf_ok]
    rw [List.mem_append, hmem, mem_scopeParams hrest, List.exists_mem_cons_iff]

/-- A template param is found exactly where one is declared. -/
theorem declOf?_eq_none {stations : List Station} {decls : List Param} {name : String}
    (h : templateDecls env stations = .ok decls) :
    declOf? decls name = none ↔ ¬Declares env.resolution stations name := by
  obtain ⟨ps, hps, h⟩ := Result.bind_ok.1 h
  obtain rfl := Result.pure_ok.1 h
  rw [declOf?, List.find?_eq_none]
  simp only [List.mem_filter, mem_scopeParams hps, decide_eq_true_eq, Declares]
  constructor
  · rintro hnone ⟨s, hs, item, hitem, p, hp, hstyle, hname⟩
    exact hnone p ⟨⟨s, hs, item, hitem, hp⟩, hstyle⟩ hname
  · rintro hnone p ⟨⟨s, hs, item, hitem, hp⟩, hstyle⟩ hname
    exact hnone ⟨s, hs, item, hitem, p, hp, hstyle, hname⟩

/-- Going one resource further in leaves open what was open, and what its path holds undeclared. -/
theorem openOn_cons {r : Resolution} {s : Station} {above : List Station} {resource : Resource}
    {name : String} (hs : s.holder = .resource resource) :
    OpenOn r (s :: above) name ↔
      OpenOn r above name ∨ name ∈ resource.placeholders ∧ ¬Declares r (s :: above) name := by
  constructor
  · rintro ⟨s', above', h, resource', hs', hmem, hnone⟩
    rcases List.suffix_cons_iff.1 h with heq | h
    · obtain ⟨rfl, rfl⟩ := List.cons.inj heq
      obtain rfl : resource' = resource := by simpa [hs] using hs'.symm
      exact Or.inr ⟨hmem, hnone⟩
    · exact Or.inl ⟨s', above', h, resource', hs', hmem, hnone⟩
  · rintro (⟨s', above', h, rest⟩ | ⟨hmem, hnone⟩)
    · exact ⟨s', above', h.trans (List.suffix_cons s above), rest⟩
    · exact ⟨s, above, List.suffix_rfl, resource, hs, hmem, hnone⟩

/-- `pending` finds the placeholders that are left open. -/
theorem mem_pending {name : String} :
    ∀ {stations : List Station} {left : List String}, TypesOutermost stations →
      pending env stations = .ok left → (name ∈ left ↔ OpenOn env.resolution stations name)
  | [], left, _, h => by
    cases h
    simp [OpenOn]
  | s :: above, left, htypes, h => by
    rw [pending] at h
    cases hs : s.holder with
    | type t =>
      rw [hs] at h
      cases h
      obtain rfl := htypes s above List.suffix_rfl (by rw [hs]; rfl)
      simp [OpenOn, List.suffix_cons_iff, hs]
    | resource resource =>
      rw [hs] at h
      obtain ⟨inherited, hinherited, h⟩ := Result.bind_ok.1 h
      obtain ⟨decls, hdecls, h⟩ := Result.bind_ok.1 h
      obtain rfl := Result.pure_ok.1 h
      have hin : name ∈ inherited ↔ OpenOn env.resolution above name :=
        mem_pending htypes.tail hinherited
      have hdecl : declOf? decls name = none ↔ ¬Declares env.resolution (s :: above) name :=
        declOf?_eq_none hdecls
      rw [openOn_cons hs, ← hin, ← hdecl]
      simp only [List.mem_append, List.mem_filter, Bool.and_eq_true, Option.isNone_iff_eq_none,
        Bool.not_eq_true', List.contains_eq_mem, decide_eq_false_iff_not]
      tauto

/-! ## Drafts -/

/-- The template params of a draft are those that were taken, each once and, unless the draft is for
a resource type, each for a placeholder that is left. -/
structure Draft.Fills (left : List String) (isType : Bool) (d : Draft) : Prop where
  keys : d.template.map (·.1) = d.filled.reverse
  nodup : d.filled.Nodup
  subset : isType = false → ∀ name ∈ d.filled, name ∈ left

theorem Draft.fills_empty (left : List String) (isType : Bool) (scope : NameScope) :
    ({ scope } : Draft).Fills left isType :=
  ⟨rfl, List.nodup_nil, by simp⟩

theorem Draft.push_template (d : Draft) (style : ParamStyle) (entry : String × ValueExpr) :
    (d.push style entry).template =
      if style = .template then d.template ++ [entry] else d.template := by
  cases style <;> rfl

theorem Draft.push_filled (d : Draft) (style : ParamStyle) (entry : String × ValueExpr) :
    (d.push style entry).filled = d.filled := by
  cases style <;> rfl

/-- A param that is supplied gets an entry of its own style, under its own name. -/
theorem supply_template {d d' : Draft} {p : Param} {source : String} {required : Bool}
    (h : Yields (supply env d p source required) d') :
    d'.filled = d.filled ∧ d'.template.map (·.1) =
      if p.style = .template then d.template.map (·.1) ++ [p.name] else d.template.map (·.1) := by
  obtain ⟨type, -, h⟩ := h.bind
  cases hfixed : p.fixed with
  | some value =>
    rw [hfixed] at h
    obtain ⟨v, -, h⟩ := h.bind
    rw [← h.pure, Draft.push_filled, Draft.push_template]
    refine ⟨rfl, ?_⟩
    split <;> simp
  | none =>
    rw [hfixed] at h
    obtain ⟨⟨arg, scope⟩, -, h⟩ := h.bind
    rw [← h.pure]
    show (d.push _ _).filled = _ ∧ (d.push _ _).template.map _ = _
    rw [Draft.push_filled, Draft.push_template]
    refine ⟨rfl, ?_⟩
    split <;> simp

/-- A param is taken or passed over; a template param that is taken counts as filled. -/
theorem addParam_fills {left : List String} {isType : Bool} {d d' : Draft} {p : Param}
    {source : String} (hd : d.Fills left isType)
    (h : Yields (addParam env left isType d p source) d') :
    d'.Fills left isType ∧ d.filled ⊆ d'.filled ∧
      (p.style = .template → p.name ∈ left → p.name ∈ d'.filled) := by
  rw [addParam] at h
  by_cases hstyle : p.style = .template
  · rw [if_pos hstyle] at h
    split at h
    · rename_i hskip
      obtain ⟨-, -, h⟩ := h.bind
      rw [← h.pure]
      refine ⟨hd, List.Subset.refl _, fun _ hleft => ?_⟩
      simpa [hleft] using hskip
    · rename_i htake
      obtain ⟨hleft, hnew⟩ : (p.name ∈ left ∨ isType = true) ∧ p.name ∉ d.filled := by
        simpa [or_iff_not_imp_left] using htake
      obtain ⟨hfilled, hkeys⟩ := supply_template h
      rw [if_pos hstyle] at hkeys
      have hfilled : d'.filled = p.name :: d.filled := hfilled
      refine ⟨⟨?_, ?_, fun htype name hname => ?_⟩, ?_, fun _ _ => ?_⟩
      · rw [hkeys, hd.keys, hfilled, List.reverse_cons]
      · rw [hfilled, List.nodup_cons]
        exact ⟨hnew, hd.nodup⟩
      · rw [hfilled] at hname
        rcases List.mem_cons.1 hname with rfl | hname
        · exact hleft.resolve_right (by simp [htype])
        · exact hd.subset htype name hname
      · rw [hfilled]
        exact List.subset_cons_self _ _
      · rw [hfilled]
        exact List.mem_cons_self
  · rw [if_neg hstyle] at h
    have hsame : d'.filled = d.filled ∧ d'.template.map (·.1) = d.template.map (·.1) := by
      split at h
      · rw [← h.pure]
        exact ⟨rfl, rfl⟩
      · simpa [hstyle] using supply_template h
    obtain ⟨hfilled, hkeys⟩ := hsame
    refine ⟨⟨?_, ?_, ?_⟩, ?_, fun hs => absurd hs hstyle⟩
    · rw [hkeys, hd.keys, hfilled]
    · rw [hfilled]
      exact hd.nodup
    · rw [hfilled]
      exact hd.subset
    · rw [hfilled]
      exact List.Subset.refl _

theorem addRequest_fills {left : List String} {isType : Bool} {label : String} {d d' : Draft}
    {items : List ParamItem} (hd : d.Fills left isType)
    (h : Yields (addRequest env left isType label d items) d') : d'.Fills left isType := by
  refine Yields.foldlM_keeps (fun d => d.Fills left isType) ?_ hd h
  intro d d' item _ hd h
  obtain ⟨p, -, h⟩ := h.bind
  exact (addParam_fills hd h).1

theorem addShared_fills {left : List String} {isType : Bool} {className : String} {d d' : Draft}
    {items : List ParamItem} (hd : d.Fills left isType)
    (h : Yields (addShared env left isType className d items) d') :
    d'.Fills left isType ∧ d.filled ⊆ d'.filled := by
  refine Yields.foldlM_keeps (fun e => e.Fills left isType ∧ d.filled ⊆ e.filled) ?_
    ⟨hd, List.Subset.refl _⟩ h
  rintro e e' item - ⟨he, hsub⟩ h
  obtain ⟨p, -, h⟩ := h.bind
  split at h
  · rw [← h.pure]
    exact ⟨he, hsub⟩
  · obtain ⟨he', hgrows, -⟩ := addParam_fills he h
    exact ⟨he', List.Subset.trans hsub hgrows⟩

/-- What is found for a name is a template param of this name. -/
theorem findTemplate?_some {name : String} {p : Param} :
    ∀ {items : List ParamItem}, findTemplate? env name items = .ok (some p) →
      p.style = .template ∧ p.name = name
  | [], h => by simp [findTemplate?] at h
  | item :: rest, h => by
    rw [findTemplate?] at h
    obtain ⟨q, -, h⟩ := Result.bind_ok.1 h
    split at h
    · rename_i hq
      obtain rfl := Option.some.inj (Result.pure_ok.1 h)
      exact hq
    · exact findTemplate?_some h

/-- What is found is the param of one of the items. -/
theorem exists_item_of_findTemplate? {name : String} {p : Param} :
    ∀ {items : List ParamItem}, findTemplate? env name items = .ok (some p) →
      ∃ item ∈ items, env.resolution.param item = .ok p
  | [], h => by simp [findTemplate?] at h
  | item :: rest, h => by
    rw [findTemplate?] at h
    obtain ⟨q, hq, h⟩ := Result.bind_ok.1 h
    split at h
    · obtain rfl := Option.some.inj (Result.pure_ok.1 h)
      exact ⟨item, List.mem_cons_self, paramOf_ok.1 hq⟩
    · obtain ⟨item', hitem', hp⟩ := exists_item_of_findTemplate? h
      exact ⟨item', List.mem_cons_of_mem item hitem', hp⟩

/-- The param for a placeholder is a template param of its name. -/
theorem placeholderDecl_ok {methods : List (Placed Method)} {placeholder : String} {p : Param}
    (h : placeholderDecl env methods placeholder = .ok p) :
    p.style = .template ∧ p.name = placeholder := by
  obtain ⟨found, hfound, h⟩ := Result.bind_ok.1 h
  obtain rfl := Result.pure_ok.1 h
  cases found with
  | none => exact ⟨rfl, rfl⟩
  | some p => exact findTemplate?_some hfound

/-- Every placeholder of a list that is left gets filled. -/
theorem addPlaceholders_fills {left : List String} {isType : Bool} {className : String}
    {methods : List (Placed Method)} :
    ∀ {names : List String} {d d' : Draft}, names ⊆ left → d.Fills left isType →
      Yields (names.foldlM (addPlaceholder env left isType className methods) d) d' →
      d'.Fills left isType ∧ d.filled ⊆ d'.filled ∧ names ⊆ d'.filled
  | [], d, d', _, hd, h => by
    rw [List.foldlM_nil] at h
    rw [← h.pure]
    exact ⟨hd, List.Subset.refl _, List.nil_subset _⟩
  | name :: names, d, d', hnames, hd, h => by
    rw [List.foldlM_cons] at h
    obtain ⟨e, he, h⟩ := h.bind
    obtain ⟨hname, hrest⟩ := List.cons_subset.1 hnames
    have hstep : e.Fills left isType ∧ d.filled ⊆ e.filled ∧ name ∈ e.filled := by
      rw [addPlaceholder] at he
      split at he
      · rename_i hmem
        rw [← he.pure]
        exact ⟨hd, List.Subset.refl _, by simpa using hmem⟩
      · obtain ⟨p, hp, he⟩ := he.bind
        obtain ⟨hstyle, rfl⟩ := placeholderDecl_ok hp.lift
        obtain ⟨hfills, hgrows, htaken⟩ := addParam_fills hd he
        exact ⟨hfills, hgrows, htaken hstyle hname⟩
    obtain ⟨hfills, hgrows, hmem⟩ := addPlaceholders_fills hrest hstep.1 h
    exact ⟨hfills, List.Subset.trans hstep.2.1 hgrows,
      List.cons_subset.2 ⟨hgrows hstep.2.2, hmem⟩⟩

theorem sentBody_template {m : Placed Method} {d d' : Draft} {body : Option SentBody}
    (h : sentBody env m d = .ok (body, d')) : d'.template = d.template := by
  rw [sentBody] at h
  split at h
  · obtain ⟨-, rfl⟩ := Prod.mk.inj (Result.pure_ok.1 h)
    rfl
  · obtain ⟨reps, -, h⟩ := Result.bind_ok.1 h
    split at h
    · obtain ⟨-, rfl⟩ := Prod.mk.inj (Result.pure_ok.1 h)
      rfl
    · obtain ⟨⟨name, scope⟩, -, h⟩ := Result.bind_ok.1 h
      obtain ⟨-, rfl⟩ := Prod.mk.inj (Result.pure_ok.1 h)
      rfl

/-! ## Operations -/

/-- The template params of an operation differ; the placeholders that are left are among them, and
for a resource they are nothing else. -/
theorem operation_fills {c : Container} {className : String} {methods : List (Placed Method)}
    {scope scope' : NameScope} {m : Placed Method} {op : Operation}
    (h : Yields (operation env c className methods scope m) (op, scope')) :
    op.verb = Case.upper m.value.name ∧ ∃ left, pending env (c.here :: c.above) = .ok left ∧
      (op.template.map (·.1)).Nodup ∧ left ⊆ op.template.map (·.1) ∧
      (c.isType = false → op.template.map (·.1) ⊆ left) := by
  obtain ⟨left, d₁, d₂, d₃, d₄, hsteps, -, -, hverb, -, htemplate, -⟩ := operation_yields h
  have hd₁ := addRequest_fills (Draft.fills_empty left c.isType _) hsteps.request
  obtain ⟨hd₂, -, hall⟩ := addPlaceholders_fills (List.Subset.refl left) hd₁ hsteps.placeholders
  obtain ⟨hd₃, hgrows⟩ := addShared_fills hd₂ hsteps.shared
  have hkeys : op.template.map (·.1) = d₃.filled.reverse := by
    rw [htemplate, sentBody_template hsteps.body, hd₃.keys]
  refine ⟨hverb, left, hsteps.pending_eq, ?_, ?_, ?_⟩
  · rw [hkeys]
    exact List.nodup_reverse.2 hd₃.nodup
  · rw [hkeys]
    exact fun x hx => List.mem_reverse.2 (hgrows (hall hx))
  · rw [hkeys]
    exact fun htype x hx => hd₃.subset htype x (List.mem_reverse.1 hx)

/-- The operations of the class of a resource fill what is left open on the way down to it, and with
the types of the description they pass on values for that. -/
theorem resourceClass_fills {c : Container} {cls : ResourceClass}
    (hc : TypesOutermost (c.here :: c.above)) (htype : c.isType = false)
    (h : Yields (resourceClass env c) cls) : ∃ methods, env.resolution.methods c = .ok methods ∧
      List.Forall₂ (fun m op => op.verb = Case.upper m.value.name ∧
        op.FillsExactly (LeftOpen env.resolution c) ∧
        ∀ first, Yields (unify env.resolution first) env.table →
          op.PassesExactly (LeftOpen env.resolution c))
        methods cls.operations := by
  obtain ⟨methods, scope, hmethods, hops, -⟩ := (classMade_of_yields h).members
  refine ⟨methods, Result.mapError_ok.1 hmethods, (operations_forall₂ hops).imp ?_⟩
  rintro m op ⟨inner, inner', hop⟩
  obtain ⟨hverb, left, hleft, hnodup, hall, honly⟩ := operation_fills hop
  have hfills : op.FillsExactly (LeftOpen env.resolution c) := by
    refine ⟨hnodup, fun name => ?_⟩
    rw [LeftOpen, ← mem_pending hc hleft]
    exact ⟨fun hname => honly htype hname, fun hname => hall hname⟩
  exact ⟨hverb, hfills, fun first hu => hfills.passes (readable_operation hu hop)⟩

end Build

/-! ## The classes of a client -/

/-- In a client with the types of a description each container has its class, and the operations in
the class of a resource, one for each method, pass on a value for each placeholder that is left open
on the way down to the resource, once, and for nothing else. -/
theorem template_keys_iff_leftOpen {r : Resolution} {first config : ClientConfig}
    {table : TypeTable} {s s' t t' : List Notice} {m : ClientModule}
    (hu : Gives (unify r first) s table s') (h : Gives (buildModule r table config) t m t') :
    List.Forall₂ (fun c cls => c.isType = false →
      ∃ methods, r.methods c = .ok methods ∧
        List.Forall₂ (fun method op => op.verb = Case.upper method.value.name ∧
          op.PassesExactly (LeftOpen r c)) methods cls.operations)
      r.classOrder m.classes := by
  obtain ⟨classNames, hbuilt⟩ := Build.built_of_yields h.yields
  have htypes : Yields
      (unify (⟨r, table, config, classNames, r.containers⟩ : Build.Env).resolution first)
      (⟨r, table, config, classNames, r.containers⟩ : Build.Env).table := hu.yields
  have hmem : ∀ c ∈ r.classOrder, TypesOutermost (c.here :: c.above) := fun c hc =>
    r.typesOutermost c (Resolution.mem_classOrder.1 hc)
  have hclasses := (List.forall₂_and_left _ _).2 ⟨hmem, hbuilt.classes⟩
  refine hclasses.imp fun c cls hcls htype => ?_
  obtain ⟨methods, hmethods, hops⟩ := Build.resourceClass_fills hcls.1 htype hcls.2
  exact ⟨methods, hmethods, hops.imp fun method op hop => ⟨hop.1, hop.2.2 first htypes⟩⟩

/-- A resource below a resource: the inner path leaves open what its own methods declare, and what
the outer path holds and only a method of the outer resource declares. -/
def nestedTemplates : Application :=
  let template (name : String) (fixed : Option String) : ParamItem :=
    .inline { name, style := .template, fixed }
  let asking (verb : String) (params : List ParamItem) : MethodItem :=
    .inline ⟨verb, none, some ⟨params, [], []⟩, [], []⟩
  let inner : Resource := ⟨none, some "{c}/{c}", [], formMediaType, [],
    [asking "GET" [template "c" none], .inline ⟨"DELETE", none, none, [], []⟩], [], []⟩
  let outer : Resource := ⟨none, some "w/{a}/{b}", [], formMediaType, [template "a" none],
    [asking "POST" [template "a" none, template "b" (some "1")]], [inner], []⟩
  ⟨"http://h/d", [], [], [⟨some "http://h/", [outer]⟩], [], [], [], []⟩

theorem template_keys_nestedTemplates :
    let r : Resolution := ⟨nestedTemplates, [], [("http://h/d", nestedTemplates)]⟩
    ∃ table m s t, Gives (unify r {}) [] table s ∧ Gives (buildModule r table {}) s m t ∧
      m.classes.map (fun cls => cls.operations.map fun op => passed? (op.lines true) .template) =
        [[some [("b", "'1'")]], [some [("c", "c"), ("b", "b")], some [("b", "b"), ("c", "c")]]] ∧
      List.Forall₂ (fun c cls => c.isType = false →
        ∃ methods, r.methods c = .ok methods ∧
          List.Forall₂ (fun method op => op.verb = Case.upper method.value.name ∧
            op.PassesExactly (LeftOpen r c)) methods cls.operations)
        r.classOrder m.classes := by
  intro r
  obtain ⟨⟨table, m⟩, t, h, hclasses⟩ := exists_gives_of_any (x := Build.typedClient r {}) (s := [])
    (p := fun x =>
      x.2.classes.map (fun cls => cls.operations.map fun op => some (op.written .template)) =
      [[some [("b", "'1'")]], [some [("c", "c"), ("b", "b")], some [("b", "b"), ("c", "c")]]])
    (by decide +kernel)
  obtain ⟨s, hu, hm⟩ := Build.typedClient_gives h
  have hpassed :
      m.classes.map (fun cls => cls.operations.map fun op => passed? (op.lines true) .template) =
      m.classes.map fun cls => cls.operations.map fun op => some (op.written .template) :=
    List.map_congr_left fun cls hcls => List.map_congr_left fun op hop =>
      operations_passed hu hm cls hcls op hop true .template
  exact ⟨table, m, s, t, hu, hm, hpassed.trans (of_decide_eq_true hclasses),
    template_keys_iff_leftOpen hu hm⟩

end Wadl
