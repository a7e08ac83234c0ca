import Wadl.Proofs.Client.Placeholders
import Wadl.Proofs.Resolution.Containers

/-!
# What inherited operations fill

The operations of a resource type are made once, for all resources of the type. Each fills the
template params that the request of its method declares (`Method.Asks`) and no other, whatever the
resources leave open (`Build.typeOperation_fills`); the operations of resources below a resource
type fill what is left open on the way from the type down to them. So an operation that a resource
inherits leaves a placeholder of the URL open unless the request declares it
(`inherited_closes_iff`).
-/

namespace Wadl

/-- The request of a method declares a template param with a name. -/
def Method.Asks (r : Resolution) (m : Method) (name : String) : Prop :=
  ∃ item ∈ (m.request.map (·.params)).getD [], ∃ p,
    r.param item = .ok p ∧ p.style = .template ∧ p.name = name

/-- An operation fills all placeholders for which `isLeft` holds. -/
def Operation.Closes (op : Operation) (isLeft : String → Prop) : Prop :=
  ∀ name, isLeft name → name ∈ op.template.map (·.1)

theorem Operation.FillsExactly.closes_iff {op : Operation} {isFilled isLeft : String → Prop}
    (h : op.FillsExactly isFilled) : op.Closes isLeft ↔ ∀ name, isLeft name → isFilled name :=
  forall_congr' fun name => imp_congr_right fun _ => h.2 name

namespace Build

variable {env : Env}

/-! ## Drafts for resource types -/

/-- In a draft for a resource type each template param counts as filled. -/
theorem mem_filled_addParam {left : List String} {d d' : Draft} {p : Param} {source name : String}
    (h : Yields (addParam env left true d p source) d') :
    name ∈ d'.filled ↔ name ∈ d.filled ∨ p.style = .template ∧ p.name = name := by
  rw [addParam] at h
  split at h
  · rename_i hstyle
    split at h
    · rename_i hskip
      obtain ⟨-, -, h⟩ := h.bind
      obtain rfl := h.pure
      have hmem : p.name ∈ d.filled := by simpa using hskip
      refine ⟨Or.inl, ?_⟩
      rintro (hname | ⟨-, rfl⟩)
      · exact hname
      · exact hmem
    · have hfilled : d'.filled = p.name :: d.filled := (supply_template h).1
      rw [hfilled, List.mem_cons]
      constructor
      · rintro (rfl | hname)
        · exact Or.inr ⟨hstyle, rfl⟩
        · exact Or.inl hname
      · rintro (hname | ⟨-, rfl⟩)
        · exact Or.inr hname
        · exact Or.inl rfl
  · rename_i hstyle
    have hfilled : d'.filled = d.filled := by
      split at h
      · rw [h.pure]
      · exact (supply_template h).1
    rw [hfilled, or_iff_left fun hp => hstyle hp.1]

/-- A draft for a resource type is filled with the template params of its request. -/
theorem mem_filled_addRequest {left : List String} {label name : String} {items : List ParamItem} :
    ∀ {d d' : Draft}, Yields (addRequest env left true label d items) d' →
      (name ∈ d'.filled ↔ name ∈ d.filled ∨
        ∃ item ∈ items, ∃ p, env.resolution.param item = .ok p ∧ p.style = .template ∧
          p.name = name) := by
  induction items with
  | nil =>
    intro d d' h
    rw [addRequest, List.foldlM_nil] at h
    simp [h.pure]
  | cons item items ih =>
    intro d d' h
    rw [addRequest, List.foldlM_cons] at h
    obtain ⟨e, he, h⟩ := h.bind
    obtain ⟨p, hp, he⟩ := he.bind
    have hparam := paramOf_ok.1 hp.lift
    rw [ih h, mem_filled_addParam he, List.exists_mem_cons_iff, or_assoc]
    simp [hparam]

/-- The params of the container itself fill nothing. -/
theorem filled_addShared {left : List String} {isType : Bool} {className : String} {d d' : Draft}
    {items : List ParamItem} (h : Yields (addShared env left isType className d items) d') :
    d'.filled = d.filled := by
  refine Yields.foldlM_keeps (fun e => e.filled = d.filled) (fun e e' item _ he h => ?_) rfl h
  obtain ⟨p, -, h⟩ := h.bind
  split at h
  · rwa [← h.pure]
  · rename_i hstyle
    rw [addParam, if_neg hstyle] at h
    split at h
    · rwa [← h.pure]
    · exact (supply_template h).1.trans he

/-- An operation of a resource type fills the template params that its request declares, and nothing
else; with the types of the description it passes on values for these. -/
theorem typeOperation_fills {c : Container} {className : String} {methods : List (Placed Method)}
    {scope scope' : NameScope} {m : Placed Method} {op : Operation} (htype : c.isType = true)
    (h : Yields (operation env c className methods scope m) (op, scope')) :
    op.verb = Case.upper m.value.name ∧ op.FillsExactly (m.value.Asks env.resolution) ∧
      ∀ first, Yields (unify env.resolution first) env.table →
        op.PassesExactly (m.value.Asks env.resolution) := by
  have hreadable :=
    fun first (hu : Yields (unify env.resolution first) env.table) => readable_operation hu h
  obtain ⟨left, d₁, d₂, d₃, d₄, hsteps, -, -, hverb, -, htemplate, -⟩ := operation_yields h
  -- nothing is left for a resource type to fill
  obtain rfl : left = [] := by
    have hpending := hsteps.pending_eq
    rw [pending] at hpending
    cases hholder : c.here.holder with
    | resource res => simp [Container.isType, hholder, Holder.isType] at htype
    | type t => simpa [hholder] using hpending.symm
  obtain rfl : d₂ = d₁ := by
    have hsame := hsteps.placeholders
    rw [addPlaceholders, List.foldlM_nil] at hsame
    exact hsame.pure.symm
  have hd₁ := addRequest_fills (Draft.fills_empty [] c.isType _) hsteps.request
  obtain ⟨hd₃, -⟩ := addShared_fills hd₁ hsteps.shared
  have hkeys : op.template.map (·.1) = d₃.filled.reverse := by
    rw [htemplate, sentBody_template hsteps.body, hd₃.keys]
  have hrequest := hsteps.request
  rw [htype] at hrequest
  have hfills : op.FillsExactly (m.value.Asks env.resolution) := by
    refine ⟨?_, fun name => ?_⟩
    · rw [hkeys]
      exact List.nodup_reverse.2 hd₃.nodup
    · rw [hkeys, List.mem_reverse, filled_addShared hsteps.shared, mem_filled_addRequest hrequest]
      simp [Method.Asks]
  exact ⟨hverb, hfills, fun first hu => hfills.passes (hreadable first hu)⟩

/-- The operations in the class of a resource type fill what the requests of its methods declare. -/
theorem typeClass_fills {c : Container} {cls : ResourceClass} (htype : c.isType = true)
    (h : ClassMade env c cls) :
    ∃ methods, env.resolution.methods c = .ok methods ∧
      List.Forall₂ (fun m op => op.verb = Case.upper m.value.name ∧
        op.FillsExactly (m.value.Asks env.resolution) ∧
        ∀ first, Yields (unify env.resolution first) env.table →
          op.PassesExactly (m.value.Asks env.resolution))
        methods cls.operations := by
  obtain ⟨methods, scope, hmethods, hops, -⟩ := h.members
  refine ⟨methods, Result.mapError_ok.1 hmethods, (operations_forall₂ hops).imp ?_⟩
  rintro m op ⟨inner, inner', hop⟩
  exact typeOperation_fills htype hop

end Build

/-- A container stands in a client with its class. -/
def ClientModule.HasClass (m : ClientModule) (r : Resolution) (c : Container)
    (cls : ResourceClass) : Prop :=
  (c, cls) ∈ r.classOrder.zip m.classes

/-- A resource has the class of each of its types as a base. An operation that it inherits fills the
template params that the request of its method declares, so that it leaves no placeholder of the
resource open if and only if the request declares them all. An operation of a resource below the
type, reached through the resource, leaves none open if and only if all are left open on the way
from the type down to it, too. What operations fill is what their lines pass on, if the types are
those of the description. -/
theorem inherited_closes_iff {w : Web} {fuel : Nat} {r : Resolution} {n n' : List Notice}
    (hr : Gives (resolveWith w.loading w.strict fuel w.app) n r n') {table : TypeTable}
    {config : ClientConfig} {m : ClientModule} {s t : List Notice}
    (hm : Gives (buildModule r table config) s m t) {c : Container} (hc : c ∈ r.containers)
    {res : Resource} (hres : c.here.holder = .resource res) {ref : Reference}
    (href : ref ∈ res.types) :
    ∃ type outer cls base, r.resourceType ref = .ok type ∧ outer.place = type.place ∧
      outer.here.holder = .type type.value ∧ m.HasClass r c cls ∧ m.HasClass r outer base ∧
      base.name ∈ cls.bases ∧
      (∃ methods, r.methods outer = .ok methods ∧
        List.Forall₂ (fun method op => op.verb = Case.upper method.value.name ∧
          op.FillsExactly (method.value.Asks r) ∧
          (op.Closes (LeftOpen r c) ↔ ∀ name, LeftOpen r c name → method.value.Asks r name) ∧
          ∀ first u u', Gives (unify r first) u table u' → op.PassesExactly (method.value.Asks r))
          methods base.operations) ∧
      ∀ below inner, m.HasClass r below inner → outer.here ∈ below.above →
        ∃ methods, r.methods below = .ok methods ∧
          List.Forall₂ (fun method op => op.verb = Case.upper method.value.name ∧
            op.FillsExactly (LeftOpen r below) ∧
            (op.Closes (fun name => LeftOpen r c name ∨ LeftOpen r below name) ↔
              ∀ name, LeftOpen r c name → LeftOpen r below name) ∧
            ∀ first u u', Gives (unify r first) u table u' → op.PassesExactly (LeftOpen r below))
            methods inner.operations := by
  obtain ⟨classNames, hbuilt⟩ := Build.built_of_yields hm.yields
  have hclasses := hbuilt.classes.imp fun c cls hcls => Build.classMade_of_yields hcls
  obtain ⟨cls, hcls, hmade⟩ := exists_zip_of_forall₂ hclasses (Resolution.mem_classOrder.2 hc)
  obtain ⟨name, hname, hclass⟩ := (Build.basesOf_ok hmade.bases).1 res hres ref href
  obtain ⟨type, htype, hclassAt⟩ := Result.bind_ok.1 hclass
  obtain ⟨outer, houter, hplace, hholder⟩ :=
    Web.container_of_resourceType (Web.resolves_of_gives hr) (Result.mapError_ok.1 htype)
  obtain ⟨base, hbase, hbaseMade⟩ :=
    exists_zip_of_forall₂ hclasses (Resolution.mem_classOrder.2 houter)
  have hbaseName := hbaseMade.name
  rw [hplace] at hbaseName
  refine ⟨type, outer, cls, base, Result.mapError_ok.1 htype, hplace, hholder,
    hcls, hbase, ?_, ?_, ?_⟩
  · rwa [Except.ok.inj (hbaseName.symm.trans hclassAt)]
  · obtain ⟨methods, hmethods, hops⟩ :=
      Build.typeClass_fills (by rw [Container.isType, hholder]; rfl) hbaseMade
    refine ⟨methods, hmethods, hops.imp ?_⟩
    rintro method op ⟨hverb, hfills, hpasses⟩
    exact ⟨hverb, hfills, hfills.closes_iff, fun first u u' hu => hpasses first hu.yields⟩
  · intro below inner hinner hbelow
    have hmem := (List.of_mem_zip hinner).1
    have houtermost := r.typesOutermost below (Resolution.mem_classOrder.1 hmem)
    have hresource : below.isType = false := by
      cases hbelowType : below.isType with
      | false => rfl
      | true =>
        rw [houtermost below.here below.above List.suffix_rfl hbelowType] at hbelow
        cases hbelow
    obtain ⟨methods, hmethods, hops⟩ := Build.resourceClass_fills houtermost hresource
      ((List.forall₂_iff_zip.1 hbuilt.classes).2 hinner)
    refine ⟨methods, hmethods, hops.imp ?_⟩
    rintro method op ⟨hverb, hfills, hpasses⟩
    refine ⟨hverb, hfills, ?_, fun first u u' hu => hpasses first hu.yields⟩
    rw [hfills.closes_iff]
    exact forall_congr' fun name => or_imp.trans (and_iff_left id)

/-- The one method of a type whose request declares nothing. -/
def plainGet : Method := ⟨"GET", none, none, [], []⟩

/-- A resource that leaves its placeholder to its methods: its own method declares it, and that of
its type does not. -/
def openItem : Resource :=
  let id : Param := { name := "id", style := .template }
  ⟨none, some "{id}", [⟨.resourceType, "http://h/d#item", ""⟩], formMediaType, [],
    [.inline ⟨"DELETE", none, some ⟨[.inline id], [], []⟩, [], []⟩], [], []⟩

/-- A description of this resource and its type. -/
def openItems : Application :=
  ⟨"http://h/d", [], [], [⟨some "http://h/", [openItem]⟩],
    [⟨"item", formMediaType, [], [.inline plainGet], [], []⟩], [], [], []⟩

/-- The operation that `openItem` inherits leaves its placeholder open. -/
theorem inherited_closes_iff_openItems :
    let w : Web := ⟨openItems, none, false⟩
    ∃ r n table t m t', Gives (resolveWith w.loading w.strict 4 w.app) [] r n ∧
      Gives (unify r {}) [] table t ∧ Gives (buildModule r table {}) t m t' ∧
      ∃ c ∈ r.containers, c.here.holder = .resource openItem ∧ LeftOpen r c "id" ∧
        ∃ cls ∈ m.classes, ∃ base ∈ m.classes, base.name ∈ cls.bases ∧ ∃ op ∈ base.operations,
          ¬op.Closes (LeftOpen r c) := by
  intro w
  let build (r : Resolution) : Generating (TypeTable × ClientModule) := do
    let table ← unify r {}
    return (table, ← buildModule r table {})
  let ref : Reference := ⟨.resourceType, "http://h/d#item", ""⟩
  obtain ⟨r, n, hr, hcheck⟩ :=
    exists_gives_of_any (x := resolveWith w.loading w.strict 4 w.app) (s := [])
    (p := fun r => (Id.run ((build r).run.run [])).1.isOk &&
      (r.resourceType ref).toOption.any fun t => t.value.methods = [.inline plainGet])
    (by decide +kernel)
  obtain ⟨hbuild, htype⟩ := Bool.and_eq_true_iff.1 hcheck
  obtain ⟨⟨table, m⟩, t', hgives⟩ := exists_gives hbuild
  obtain ⟨_, t, hu, hrest⟩ := gives_bind.1 hgives
  obtain ⟨_, t', hm, hpure⟩ := gives_bind.1 hrest
  obtain ⟨rfl, rfl⟩ := Prod.mk.inj (gives_pure.1 hpure).1.symm
  have happ : r.app = openItems := (Web.resolves_of_gives hr).app_eq
  let c : Container :=
    ⟨⟨.resource openItem, ⟨"http://h/d", [.group 0, .resource 0]⟩, openItem.segments⟩, []⟩
  have hc : c ∈ r.containers := by
    refine List.mem_append_right _ ?_
    rw [happ]
    exact List.mem_cons_self
  have hopen : LeftOpen r c "id" := by
    refine ⟨c.here, [], List.suffix_rfl, openItem, rfl, by decide +kernel, ?_⟩
    rintro ⟨s, hs, item, hitem, -⟩
    rw [List.mem_singleton.1 hs] at hitem
    cases hitem
  obtain ⟨type, outer, cls, base, href, -, houter, hcls, hbase, hname,
      ⟨methods, hmethods, hops⟩, -⟩ :=
    inherited_closes_iff hr hm hc rfl (show ref ∈ openItem.types from List.mem_cons_self)
  have hitems : outer.here.holder.methods = [.inline plainGet] := by
    rw [href] at htype
    rw [houter]
    exact of_decide_eq_true htype
  obtain ⟨place, rfl⟩ : ∃ place, methods = [⟨plainGet, place⟩] := by
    rw [Resolution.methods, hitems] at hmethods
    exact ⟨_, (Except.ok.inj hmethods).symm⟩
  obtain ⟨op, ops, ⟨-, -, hcloses, -⟩, -, hall⟩ := List.forall₂_cons_left_iff.1 hops
  refine ⟨r, n, table, t, m, t', hr, hu, hm, c, hc, rfl, hopen, cls, (List.of_mem_zip hcls).2, base,
    (List.of_mem_zip hbase).2, hname, op, hall ▸ List.mem_cons_self, fun h => ?_⟩
  obtain ⟨item, hitem, -⟩ := hcloses.1 h "id" hopen
  cases hitem

end Wadl
