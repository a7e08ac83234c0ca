import Wadl.Proofs.Document.RoundTrip
import Wadl.Proofs.Document.Children

/-!
# What is gathered from the children of a root

A description has, kind by kind, what is read of the children of the root: `Gathered` says so of
what is added to a description item by item (`gathered_of_yields`), and what can be gathered can be
added (`always_foldlM_of_gathered`).
-/

namespace Wadl

open Reader

/-! ## Descriptions -/

/-- A description with the parts of another one after its own. -/
def Application.plus (app more : Application) : Application :=
  { app with
    grammars := app.grammars ++ more.grammars
    resources := app.resources ++ more.resources
    resourceTypes := app.resourceTypes ++ more.resourceTypes
    representations := app.representations ++ more.representations
    params := app.params ++ more.params
    methods := app.methods ++ more.methods }

/-- A description without parts. -/
def Application.nothing : Application := ⟨"", [], [], [], [], [], [], []⟩

theorem Application.plus_nothing (app : Application) : app.plus nothing = app := by
  simp [plus, nothing]

theorem Application.plus_assoc (app more others : Application) :
    (app.plus more).plus others = app.plus (more.plus others) := by
  simp [plus]

/-- The identifiers of the top-level definitions of each kind differ. -/
structure Application.TopDistinct (app : Application) : Prop where
  resourceTypes : (app.resourceTypes.map (some ·.id)).Nodup
  representations : (app.representations.map (·.id)).Nodup
  params : (app.params.map (·.id)).Nodup
  methods : (app.methods.map (·.id)).Nodup

namespace Reader

/-- The parts of a description are those that items of its root are read as, kind by kind; `P` says
what reading gives. -/
structure Gathered (P : ∀ {α : Type}, Reading α → α → Prop) (pos : Position)
    (found : List (ElementKind × Element)) (parts : Application) : Prop where
  resourceTypes :
    List.Forall₂ (fun e t => P (readResourceType pos e) t) (ofKind .resourceType found)
    parts.resourceTypes
  representations : List.Forall₂ (fun e r => P (readRepresentation pos .application e) r)
    (ofKind .representation found) parts.representations
  params : List.Forall₂ (fun e p => P (readParam pos .application e) p)
    (ofKind .param found) parts.params
  methods : List.Forall₂ (fun e m => P (readTopMethod pos e) m) (ofKind .method found) parts.methods
  grammars : ∃ hrefs,
    List.Forall₂ (fun e h => P (readGrammars pos e) h) (ofKind .grammars found) hrefs ∧
    parts.grammars = hrefs.flatten
  resources : List.Forall₂ (fun e g => P (readGroup pos e) g)
    (ofKind .resources found) parts.resources

section Gathered

variable {P : ∀ {α : Type}, Reading α → α → Prop} {pos : Position}
    {found more : List (ElementKind × Element)}
  {parts others : Application}

theorem Gathered.nil : Gathered P pos [] .nothing :=
  ⟨.nil, .nil, .nil, .nil, ⟨[], .nil, rfl⟩, .nil⟩

theorem Gathered.append (h : Gathered P pos found parts) (h' : Gathered P pos more others) :
    Gathered P pos (found ++ more) (parts.plus others) := by
  obtain ⟨hrefs, hgrammars, hflat⟩ := h.grammars
  obtain ⟨hrefs', hgrammars', hflat'⟩ := h'.grammars
  constructor
  · rw [ofKind_items_append]
    exact List.rel_append h.resourceTypes h'.resourceTypes
  · rw [ofKind_items_append]
    exact List.rel_append h.representations h'.representations
  · rw [ofKind_items_append]
    exact List.rel_append h.params h'.params
  · rw [ofKind_items_append]
    exact List.rel_append h.methods h'.methods
  · refine ⟨hrefs ++ hrefs', ?_, by simp [Application.plus, hflat, hflat']⟩
    rw [ofKind_items_append]
    exact List.rel_append hgrammars hgrammars'
  · rw [ofKind_items_append]
    exact List.rel_append h.resources h'.resources

/-- What is added to a description is what is gathered from the item. -/
theorem gathered_of_addItem {app app' : Application} {x : ElementKind × Element}
    (h : Yields (addItem pos app x) app') :
    ∃ parts, app' = app.plus parts ∧ Gathered Yields pos [x] parts := by
  obtain ⟨kind, e⟩ := x
  have hgrammars : ∀ {kind : ElementKind}, kind ≠ .grammars →
      ∃ hrefs, List.Forall₂ (fun e h => Yields (readGrammars pos e) h)
        (ofKind .grammars [(kind, e)]) hrefs ∧ ([] : List String) = hrefs.flatten := by
    intro kind hkind
    refine ⟨[], ?_, rfl⟩
    rw [ofKind_cons_of_ne hkind]
    exact .nil
  cases kind
  case resourceType =>
    obtain ⟨t, ht, h⟩ := h.bind
    obtain ⟨_, -, h⟩ := h.bind
    obtain rfl := h.pure
    exact ⟨{ Application.nothing with resourceTypes := [t] },
      by simp [Application.plus, Application.nothing],
      .cons ht .nil, .nil, .nil, .nil, hgrammars (by decide), .nil⟩
  case representation =>
    obtain ⟨r, hr, h⟩ := h.bind
    obtain ⟨_, -, h⟩ := h.bind
    obtain rfl := h.pure
    exact ⟨{ Application.nothing with representations := [r] },
      by simp [Application.plus, Application.nothing],
      .nil, .cons hr .nil, .nil, .nil, hgrammars (by decide), .nil⟩
  case param =>
    obtain ⟨p, hp, h⟩ := h.bind
    obtain ⟨_, -, h⟩ := h.bind
    obtain rfl := h.pure
    exact ⟨{ Application.nothing with params := [p] },
      by simp [Application.plus, Application.nothing],
      .nil, .nil, .cons hp .nil, .nil, hgrammars (by decide), .nil⟩
  case method =>
    obtain ⟨m, hm, h⟩ := h.bind
    obtain ⟨_, -, h⟩ := h.bind
    obtain rfl := h.pure
    exact ⟨{ Application.nothing with methods := [m] },
      by simp [Application.plus, Application.nothing],
      .nil, .nil, .nil, .cons hm .nil, hgrammars (by decide), .nil⟩
  case grammars =>
    obtain ⟨hrefs, hhrefs, h⟩ := h.bind
    obtain rfl := h.pure
    exact ⟨{ Application.nothing with grammars := hrefs },
      by simp [Application.plus, Application.nothing],
      .nil, .nil, .nil, .nil, ⟨[hrefs], .cons hhrefs .nil, by simp⟩, .nil⟩
  case resources =>
    obtain ⟨g, hg, h⟩ := h.bind
    obtain rfl := h.pure
    exact ⟨{ Application.nothing with resources := [g] },
      by simp [Application.plus, Application.nothing],
      .nil, .nil, .nil, .nil, hgrammars (by decide), .cons hg .nil⟩
  all_goals
    obtain rfl := h.pure
    exact ⟨.nothing, app.plus_nothing.symm, .nil, .nil, .nil, .nil, hgrammars (by decide), .nil⟩

/-- What is added to a description item by item is what is gathered from the items. -/
theorem gathered_of_yields : ∀ {found : List (ElementKind × Element)} {app app' : Application},
    Yields (found.foldlM (addItem pos) app) app' →
      ∃ parts, app' = app.plus parts ∧ Gathered Yields pos found parts
  | [], app, app', h => by
    rw [List.foldlM_nil] at h
    obtain rfl := h.pure
    exact ⟨.nothing, app.plus_nothing.symm, .nil⟩
  | x :: found, app, app', h => by
    rw [List.foldlM_cons] at h
    obtain ⟨_, hfirst, h⟩ := h.bind
    obtain ⟨part, rfl, hpart⟩ := gathered_of_addItem hfirst
    obtain ⟨parts, rfl, hparts⟩ := gathered_of_yields h
    exact ⟨part.plus parts, app.plus_assoc part parts, hpart.append hparts⟩

/-- A new definition is added if the identifiers of its kind differ. -/
theorem always_checkNew_of_nodup {T : Type} {id : T → Option String} {kind : ElementKind}
    {earlier rest : List T} {x : T} (h : ((earlier ++ x :: rest).map id).Nodup) :
    Always (checkNew pos kind (id x) (earlier.map id)) () :=
  always_checkNew (notMem_of_nodup h earlier x rest rfl)

/-- The first of the items that are gathered can be added. -/
theorem always_addItem_of_gathered {app parts : Application} {x : ElementKind × Element}
    (h : Gathered Always pos (x :: found) parts) (hdistinct : (app.plus parts).TopDistinct) :
    ∃ first rest, Always (addItem pos app x) first ∧ Gathered Always pos found rest ∧
      first.plus rest = app.plus parts := by
  obtain ⟨kind, e⟩ := x
  obtain ⟨htypes, hreps, hparams, hmethods, ⟨hrefs, hgrammars, hflat⟩, hgroups⟩ := h
  obtain ⟨base, docs, grammars, groups, types, reps, params, methods⟩ := parts
  cases kind
  case resourceType =>
    obtain ⟨t, ts, ht, hts, rfl⟩ := List.forall₂_cons_left_iff.1 htypes
    exact ⟨_, ⟨base, docs, grammars, groups, ts, reps, params, methods⟩,
      ht.bind ((always_checkNew_of_nodup hdistinct.resourceTypes).bind (always_pure _)),
      ⟨hts, hreps, hparams, hmethods, ⟨hrefs, hgrammars, hflat⟩, hgroups⟩,
      by simp [Application.plus]⟩
  case representation =>
    obtain ⟨r, rs, hr, hrs, rfl⟩ := List.forall₂_cons_left_iff.1 hreps
    exact ⟨_, ⟨base, docs, grammars, groups, types, rs, params, methods⟩,
      hr.bind ((always_checkNew_of_nodup hdistinct.representations).bind (always_pure _)),
      ⟨htypes, hrs, hparams, hmethods, ⟨hrefs, hgrammars, hflat⟩, hgroups⟩,
      by simp [Application.plus]⟩
  case param =>
    obtain ⟨p, ps, hp, hps, rfl⟩ := List.forall₂_cons_left_iff.1 hparams
    exact ⟨_, ⟨base, docs, grammars, groups, types, reps, ps, methods⟩,
      hp.bind ((always_checkNew_of_nodup hdistinct.params).bind (always_pure _)),
      ⟨htypes, hreps, hps, hmethods, ⟨hrefs, hgrammars, hflat⟩, hgroups⟩,
      by simp [Application.plus]⟩
  case method =>
    obtain ⟨m, ms, hm, hms, rfl⟩ := List.forall₂_cons_left_iff.1 hmethods
    exact ⟨_, ⟨base, docs, grammars, groups, types, reps, params, ms⟩,
      hm.bind ((always_checkNew_of_nodup hdistinct.methods).bind (always_pure _)),
      ⟨htypes, hreps, hparams, hms, ⟨hrefs, hgrammars, hflat⟩, hgroups⟩,
      by simp [Application.plus]⟩
  case grammars =>
    obtain ⟨h₁, hs, hh₁, hhs, rfl⟩ := List.forall₂_cons_left_iff.1 hgrammars
    exact ⟨_, ⟨base, docs, hs.flatten, groups, types, reps, params, methods⟩,
      hh₁.bind (always_pure _), ⟨htypes, hreps, hparams, hmethods, ⟨hs, hhs, rfl⟩, hgroups⟩,
      by simp_all [Application.plus]⟩
  case resources =>
    obtain ⟨g, gs, hg, hgs, rfl⟩ := List.forall₂_cons_left_iff.1 hgroups
    exact ⟨_, ⟨base, docs, grammars, gs, types, reps, params, methods⟩,
      hg.bind (always_pure _), ⟨htypes, hreps, hparams, hmethods, ⟨hrefs, hgrammars, hflat⟩, hgs⟩,
      by simp [Application.plus]⟩
  all_goals
    exact ⟨app, _, always_pure app,
      ⟨htypes, hreps, hparams, hmethods, ⟨hrefs, hgrammars, hflat⟩, hgroups⟩, rfl⟩

/-- What can be gathered from the items can be added item by item, if the identifiers of each kind
differ. -/
theorem always_foldlM_of_gathered :
    ∀ {found : List (ElementKind × Element)} {app parts : Application},
    Gathered Always pos found parts → (app.plus parts).TopDistinct →
      Always (found.foldlM (addItem pos) app) (app.plus parts)
  | [], app, parts, h, _ => by
    obtain ⟨hrefs, hgrammars, hflat⟩ := h.grammars
    have hnothing : app.plus parts = app := by
      simp [Application.plus, hflat, List.forall₂_nil_left_iff.1 hgrammars,
        List.forall₂_nil_left_iff.1 h.resourceTypes, List.forall₂_nil_left_iff.1 h.representations,
        List.forall₂_nil_left_iff.1 h.params, List.forall₂_nil_left_iff.1 h.methods,
        List.forall₂_nil_left_iff.1 h.resources]
    rw [hnothing]
    exact always_pure app
  | x :: found, app, parts, h, hdistinct => by
    obtain ⟨first, rest, hfirst, hrest, heq⟩ := always_addItem_of_gathered h hdistinct
    rw [← heq] at hdistinct ⊢
    exact hfirst.bind (always_foldlM_of_gathered hrest hdistinct)

end Gathered

end Reader

end Wadl
