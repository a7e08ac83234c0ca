import Wadl.Proofs.Client.BaseNames
import Wadl.Proofs.Client.Grouping
import Wadl.Proofs.Resolution.Reordering

/-!
# Types do not depend on the order of declarations

If two resolutions are the same but for the order of representations and of their params, their
visits and usages belong together (`Paired`). So each group of the one has a group of the other that
agrees with it in all that counts for its type (`Paired.exists_group`), and the types agree
(`unify_reordered`): representations share a type if their counterparts do, and names differ at most
where numbers are put after them.
-/

namespace Wadl

open Unify

/-! ## Signatures -/

/-- Params in another order have the same signature. -/
theorem Resolution.Mirrors.signature {r r' : Resolution} (h : r.Mirrors r')
    {items items' : List ParamItem} (hperm : items.Perm items') {s s' : String}
    (hs : r.signature items = .ok s) (hs' : r'.signature items' = .ok s') : s = s' := by
  obtain ⟨ps, hps, hs⟩ := Result.bind_ok.1 hs
  obtain ⟨ps', hps', hs'⟩ := Result.bind_ok.1 hs'
  rw [← Result.pure_ok.1 hs, ← Result.pure_ok.1 hs', signatureOf, signatureOf,
    FieldKey.listText_eq_iff.2 ((h.params hperm hps hps').map FieldKey.ofParam)]

/-! ## Two runs side by side -/

/-- What two resolutions of reordered documents visit and use belongs together. -/
structure Paired (w w' : Web) (r r' : Resolution) (visited visited' : List (Placed Representation))
    (used used' : List Usage) (groups groups' : Groups) : Prop where
  resolves : w.Resolves r
  resolves' : w'.Resolves r'
  mirrors : r.Mirrors r'
  noted : NotedAll r visited used groups
  noted' : NotedAll r' visited' used' groups'
  visits : ∀ a ∈ visited, ∃ a' ∈ visited', a.Reordered a'
  visits' : ∀ a' ∈ visited', ∃ a ∈ visited, a'.Reordered a
  usages : ∀ u ∈ used, ∃ u' ∈ used', u.Reordered u'
  usages' : ∀ u' ∈ used', ∃ u ∈ used, u'.Reordered u
  containers : ∀ u ∈ used, u.container ∈ r.containers
  containers' : ∀ u' ∈ used', u'.container ∈ r'.containers

/-- A representation of the top level has its counterpart there, with another number. -/
theorem Resolution.Mirrors.exists_top {r r' : Resolution} (h : r.Mirrors r')
    {reps reps' : List (Placed Representation)} (hreps : r.topRepresentations = .ok reps)
    (hreps' : r'.topRepresentations = .ok reps') {a : Placed Representation} (ha : a ∈ reps) :
    ∃ a' ∈ reps', a.Reordered a' := by
  obtain ⟨⟨item, n⟩, hmem, ha⟩ := (Result.mem_mapM_ok hreps).1 ha
  obtain ⟨item', hitem', hitems⟩ :=
    h.app.representations.exists_right (List.fst_mem_of_mem_zipIdx hmem)
  obtain ⟨n', hn'⟩ := List.getElem?_of_mem hitem'
  obtain ⟨a', ha', hrep'⟩ :=
    exists_right_of_forall₂ (Result.mapM_ok.1 hreps') (mem_zipIdx_of_getElem? hn')
  exact ⟨a', ha', h.representation hitems ⟨h.app.baseUri, .inr ⟨n, n', rfl, rfl⟩⟩ ha hrep'⟩

theorem Resolution.Mirrors.exists_visit {w w' : Web} {r r' : Resolution} (h : r.Mirrors r')
    (hr : w.Resolves r) (hr' : w'.Resolves r') {reps reps' : List (Placed Representation)}
    {us us' : List Usage} (hreps : r.topRepresentations = .ok reps)
    (hreps' : r'.topRepresentations = .ok reps') (hus : r.usages = .ok us)
    (hus' : r'.usages = .ok us') {a : Placed Representation}
    (ha : a ∈ reps ++ us.map (·.representation)) :
    ∃ a' ∈ reps' ++ us'.map (·.representation), a.Reordered a' := by
  rcases List.mem_append.1 ha with ha | ha
  · obtain ⟨a', ha', haa⟩ := h.exists_top hreps hreps' ha
    exact ⟨a', List.mem_append_left _ ha', haa⟩
  · obtain ⟨u, hu, rfl⟩ := List.mem_map.1 ha
    obtain ⟨u', hu', huu⟩ := h.exists_usage hr hr' hus hus' hu
    exact ⟨u'.representation, List.mem_append_right _ (List.mem_map_of_mem hu'), huu.representation⟩

theorem Resolution.container_of_mem_usages {r : Resolution} {us : List Usage}
    (hus : r.usages = .ok us) : ∀ u ∈ us, u.container ∈ r.containers := by
  intro u hu
  obtain ⟨c, hc, _, _, _, _, _, _, _, _, rfl⟩ := of_mem_usages hus hu
  exact hc

/-- Groups of reordered documents belong together. -/
theorem paired_groupsOf {w w' : Web} {r r' : Resolution} (hr : w.Resolves r) (hr' : w'.Resolves r')
    (h : r.Reordered r') {groups groups' : Groups} (hgroups : groupsOf r = .ok groups)
    (hgroups' : groupsOf r' = .ok groups') :
    ∃ visited visited' used used', (∀ a, a ∈ visited ↔ r.Visits a) ∧
      (∀ a, a ∈ visited' ↔ r'.Visits a) ∧
      Paired w w' r r' visited visited' used used' groups groups' := by
  obtain ⟨reps, us, hreps, hus, hnoted⟩ := noted_groupsOf hr hgroups
  obtain ⟨reps', us', hreps', hus', hnoted'⟩ := noted_groupsOf hr' hgroups'
  have hmirrors := h.mirrors hr hr'
  refine ⟨_, _, us, us', fun _ => Resolution.visits_iff hreps hus,
    fun _ => Resolution.visits_iff hreps' hus', ?_⟩
  exact {
    resolves := hr
    resolves' := hr'
    mirrors := hmirrors
    noted := hnoted
    noted' := hnoted'
    visits := fun _ ha => hmirrors.exists_visit hr hr' hreps hreps' hus hus' ha
    visits' := fun _ ha => hmirrors.symm.exists_visit hr' hr hreps' hreps hus' hus ha
    usages := fun _ hu => hmirrors.exists_usage hr hr' hus hus' hu
    usages' := fun _ hu => hmirrors.symm.exists_usage hr' hr hus' hus hu
    containers := Resolution.container_of_mem_usages hus
    containers' := Resolution.container_of_mem_usages hus' }

/-! ## Groups side by side -/

/-- Two groups agree in what counts for the types that are made of them. -/
structure Unify.Group.Agrees (config : ClientConfig) (g g' : Group) : Prop where
  signature : g.signature = g'.signature
  ids : g.ids = g'.ids
  memberIds : ∀ id, (∃ m ∈ g.members, m.value.id = id) ↔ ∃ m ∈ g'.members, m.value.id = id
  sites : ∀ s, s ∈ g.sites ↔ s ∈ g'.sites
  owner : g.owner? config = g'.owner? config

namespace Paired

variable {w w' : Web} {r r' : Resolution} {visited visited' : List (Placed Representation)}
    {used used' : List Usage}
  {groups groups' : Groups} {a a' : Placed Representation} {g g' : Group}

theorem symm (h : Paired w w' r r' visited visited' used used' groups groups') :
    Paired w' w r' r visited' visited used' used groups' groups :=
  ⟨h.resolves', h.resolves, h.mirrors.symm, h.noted', h.noted, h.visits', h.visits,
    h.usages', h.usages, h.containers', h.containers⟩

/-- The counterpart of a representation has its signature. -/
theorem signs (h : Paired w w' r r' visited visited' used used' groups groups')
    (haa : a.Reordered a') (ha' : a' ∈ visited') {s : String} (hs : r.Signs s a) :
    r'.Signs s a' := by
  have hfilled : a'.value.params ≠ [] := fun hnil => hs.1 (hnil ▸ haa.value.params).eq_nil
  obtain ⟨g', hg', m, hm, hplace⟩ := h.noted'.grouped.covered a' ha' hfilled
  obtain ⟨hmem, hsigned⟩ := h.noted'.grouped.signed g' hg' m hm
  rw [visits_place h.resolves' (h.noted'.visits m hmem) (h.noted'.visits a' ha') hplace] at hsigned
  exact ⟨hfilled, h.mirrors.signature haa.value.params hs.2 hsigned ▸ hsigned⟩

/-- What is collected of the usages of a signature is the same. -/
theorem subset_of_collects (h : Paired w w' r r' visited visited' used used' groups groups')
    {α : Type} {f : Usage → α} (hf : ∀ u u' : Usage, u.Reordered u' → f u = f u')
    {s : String} {xs xs' : List α} (hxs : Collects r used s f xs)
    (hxs' : Collects r' used' s f xs') : xs ⊆ xs' := by
  intro x hx
  obtain ⟨u, hu, hsigns, rfl⟩ := (hxs x).1 hx
  obtain ⟨u', hu', huu⟩ := h.usages u hu
  exact (hxs' _).2 ⟨u', hu', h.signs huu.representation (h.noted'.representations u' hu') hsigns,
    (hf u u' huu).symm⟩

theorem mem_iff_of_collects (h : Paired w w' r r' visited visited' used used' groups groups')
    {α : Type} {f : Usage → α} (hf : ∀ u u' : Usage, u.Reordered u' → f u = f u')
    {s : String} {xs xs' : List α} (hxs : Collects r used s f xs) (hxs' : Collects r' used' s f xs')
    (x : α) : x ∈ xs ↔ x ∈ xs' :=
  ⟨fun hx => h.subset_of_collects hf hxs hxs' hx,
    fun hx => h.symm.subset_of_collects hf hxs' hxs hx⟩

/-- The members of a group have counterparts in the group of the same signature. -/
theorem exists_member (h : Paired w w' r r' visited visited' used used' groups groups')
    (hg : g ∈ groups) (hg' : g' ∈ groups') (hsignature : g.signature = g'.signature)
    {m : Placed Representation} (hm : m ∈ g.members) :
    ∃ m' ∈ g'.members, m.value.Reordered m'.value := by
  obtain ⟨a, ha, hsigns, hvalue⟩ :=
    (h.noted.exists_member_iff h.resolves hg (P := (· = m.value))).1 ⟨m, hm, rfl⟩
  obtain ⟨a', ha', haa⟩ := h.visits a ha
  refine (h.noted'.exists_member_iff h.resolves' hg' (P := m.value.Reordered)).2
    ⟨a', ha', ?_, hvalue ▸ haa.value⟩
  exact h.signs haa ha' (hsignature ▸ hsigns)

theorem memberIds_subset (h : Paired w w' r r' visited visited' used used' groups groups')
    (hg : g ∈ groups) (hg' : g' ∈ groups') (hsignature : g.signature = g'.signature)
    {id : Option String} (hid : ∃ m ∈ g.members, m.value.id = id) :
    ∃ m ∈ g'.members, m.value.id = id := by
  obtain ⟨m, hm, rfl⟩ := hid
  obtain ⟨m', hm', hmm⟩ := h.exists_member hg hg' hsignature hm
  exact ⟨m', hm', hmm.id.symm⟩

/-- The only container of a group and that of the group of the same signature have one place and one
name. -/
theorem station_eq (h : Paired w w' r r' visited visited' used used' groups groups')
    (hg : g ∈ groups) (hg' : g' ∈ groups') (hsignature : g.signature = g'.signature)
    {s s' : Station} (hs : g.containers = [s]) (hs' : g'.containers = [s']) :
    s.place = s'.place ∧ s.name = s'.name := by
  obtain ⟨u, hu, hsigns, rfl⟩ := (h.noted.noted g hg).stations s (hs ▸ List.mem_singleton_self s)
  obtain ⟨u', hu', huu⟩ := h.usages u hu
  obtain ⟨v, hv, -, rfl⟩ := (h.noted'.noted g' hg').stations s' (hs' ▸ List.mem_singleton_self s')
  have hsigns' := h.signs huu.representation (h.noted'.representations u' hu') hsigns
  have hplace : u'.container.place = v.container.place := by
    have hmem :=
      ((h.noted'.noted g' hg').containers u'.container.place).2 ⟨u', hu', hsignature ▸ hsigns', rfl⟩
    rw [hs'] at hmem
    exact List.mem_singleton.1 hmem
  have hsame : u'.container = v.container := List.inj_on_of_nodup_map (Web.nodup_places h.resolves')
    (h.containers' u' hu') (h.containers' v hv) hplace
  refine ⟨huu.container.place.trans hplace, ?_⟩
  rw [← hsame, Station.name, huu.container.segments, Station.name]

/-- Groups of one signature stand in the same class, if they stand in one. -/
theorem owner?_eq (h : Paired w w' r r' visited visited' used used' groups groups')
    (config : ClientConfig) (hg : g ∈ groups) (hg' : g' ∈ groups')
    (hsignature : g.signature = g'.signature) (hids : g.ids = g'.ids) :
    g.owner? config = g'.owner? config := by
  have hnoted := h.noted.noted g hg
  have hnoted' := h.noted'.noted g' hg'
  have hlength : ∀ {xs ys : List Place}, xs.Nodup → ys.Nodup → (∀ x, x ∈ xs ↔ x ∈ ys) →
      xs.length = ys.length :=
    fun hxs hys hmem => ((List.perm_ext_iff_of_nodup hxs hys).2 hmem).length_eq
  have hmethods : g.methods.length = g'.methods.length :=
    hlength hnoted.methods_nodup hnoted'.methods_nodup
      (h.mem_iff_of_collects (fun _ _ huu => huu.place) hnoted.methods
        (hsignature ▸ hnoted'.methods))
  have hcontainers : g.containers.length = g'.containers.length := by
    have hplaces := hlength hnoted.containers_nodup hnoted'.containers_nodup
      (h.mem_iff_of_collects (fun _ _ huu => huu.container.place) hnoted.containers
        (hsignature ▸ hnoted'.containers))
    rwa [List.length_map, List.length_map] at hplaces
  unfold Group.owner?
  rcases hs : g.containers with _ | ⟨s, _ | ⟨t, rest⟩⟩ <;>
    rcases hs' : g'.containers with _ | ⟨s', _ | ⟨t', rest'⟩⟩ <;>
    simp only [hs, hs', List.length_cons, List.length_nil] at hcontainers <;> try omega
  · rfl
  · obtain ⟨hplace, hname⟩ := h.station_eq hg hg' hsignature hs hs'
    simp only [hids, hmethods, hplace, hname]
  · rfl

/-- Groups of one signature agree. -/
theorem agrees (h : Paired w w' r r' visited visited' used used' groups groups')
    (config : ClientConfig) (hg : g ∈ groups) (hg' : g' ∈ groups')
    (hsignature : g.signature = g'.signature) : g.Agrees config g' := by
  have hmembers : ∀ id, (∃ m ∈ g.members, m.value.id = id) ↔ ∃ m ∈ g'.members, m.value.id = id :=
    fun id =>
    ⟨h.memberIds_subset hg hg' hsignature, h.symm.memberIds_subset hg' hg hsignature.symm⟩
  have hids : g.ids = g'.ids := ids_congr hmembers
  exact {
    signature := hsignature
    ids := hids
    memberIds := hmembers
    sites := h.mem_iff_of_collects (fun _ _ huu => huu.site) (h.noted.noted g hg).sites
      (hsignature ▸ (h.noted'.noted g' hg').sites)
    owner := h.owner?_eq config hg hg' hsignature hids }

/-- Each group has a group that agrees with it. -/
theorem exists_group (h : Paired w w' r r' visited visited' used used' groups groups')
    (config : ClientConfig) (hg : g ∈ groups) : ∃ g' ∈ groups', g.Agrees config g' := by
  obtain ⟨m, hm⟩ := List.exists_mem_of_ne_nil _ (h.noted.noted g hg).members
  obtain ⟨hvisited, hsigned⟩ := h.noted.grouped.signed g hg m hm
  obtain ⟨m', hm', hmm⟩ := h.visits m hvisited
  obtain ⟨g', hg', hsignature, -⟩ := h.noted'.exists_member h.resolves' hm'
    (h.signs hmm hm' ⟨(h.noted.noted g hg).filled m hm, hsigned⟩)
  exact ⟨g', hg', h.agrees config hg hg' hsignature.symm⟩

end Paired

/-! ## Names side by side -/

namespace Unify.Group.Agrees

variable {config : ClientConfig} {g g' : Group}

theorem isDeclared (h : g.Agrees config g') : g.isDeclared = g'.isDeclared := by
  rw [Group.isDeclared, h.ids, Group.isDeclared]

theorem baseName (h : g.Agrees config g') : g.baseName = g'.baseName := by
  rw [Group.baseName, h.ids, least_congr h.sites, Group.baseName]

theorem scope? (h : g.Agrees config g') : g.scope? config = g'.scope? config := by
  rw [Group.scope?, h.owner, Group.scope?]

end Unify.Group.Agrees

theorem NamedById.unique {escapes : Bool} {g g' : Group} {name name' : String}
    (h : NamedById escapes g name) (h' : NamedById escapes g' name') (hids : g.ids = g'.ids) :
    name = name' := by
  obtain ⟨id, hid, -, hname, -⟩ := h
  obtain ⟨id', hid', -, hname', -⟩ := h'
  rw [hids, hid', List.singleton_inj] at hid
  rw [hname, hname', hid]

namespace Paired

variable {w w' : Web} {r r' : Resolution} {visited visited' : List (Placed Representation)}
    {used used' : List Usage}
  {groups groups' : Groups} {config : ClientConfig} {scope scope' : NameScope}
  {names names' : List (String × String)}

/-- The groups with one identifier take the same names. -/
theorem taken_subset (h : Paired w w' r r' visited visited' used used' groups groups')
    (hnames : nameDeclared (moduleScope config) groups = .ok (scope, names))
    (hnames' : nameDeclared (moduleScope config) groups' = .ok (scope', names')) :
    scope.taken ⊆ scope'.taken := by
  obtain ⟨named, -, hgroups, htakes, hbyId⟩ := nameDeclared_ok (moduleScope_reserved config) hnames
  obtain ⟨named', -, hgroups', htakes', hbyId'⟩ :=
    nameDeclared_ok (moduleScope_reserved config) hnames'
  intro name hname
  refine (htakes'.mem_taken name).2 (((htakes.mem_taken name).1 hname).imp_left fun hmem => ?_)
  obtain ⟨x, hx, rfl⟩ := List.mem_map.1 hmem
  have hgroup : x.1 ∈ groups.filter (·.isDeclared) := hgroups ▸ List.mem_map_of_mem hx
  obtain ⟨hgroup, hdeclared⟩ := List.mem_filter.1 hgroup
  obtain ⟨g', hg', hagrees⟩ := h.exists_group config hgroup
  have hmem' : g' ∈ named'.map (·.1) := by
    rw [hgroups', List.mem_filter, ← hagrees.isDeclared]
    exact ⟨hg', hdeclared⟩
  obtain ⟨y, hy, rfl⟩ := List.mem_map.1 hmem'
  rw [(hbyId x hx).unique (hbyId' y hy) hagrees.ids]
  exact List.mem_map_of_mem hy

/-- Base names that are free in one resolution are free in the other. -/
theorem baseNamesFree (h : Paired w w' r r' visited visited' used used' groups groups')
    (hnames : nameDeclared (moduleScope config) groups = .ok (scope, names))
    (hnames' : nameDeclared (moduleScope config) groups' = .ok (scope', names'))
    (hfree : BaseNamesFree config scope groups) : BaseNamesFree config scope' groups' where
  distinct x hx y hy hxother hyother hscope hname := by
    obtain ⟨g, hg, hgx⟩ := h.symm.exists_group config hx
    obtain ⟨k, hk, hky⟩ := h.symm.exists_group config hy
    rw [hgx.signature, hky.signature]
    rw [hgx.scope?, hky.scope?] at hscope
    rw [hgx.baseName, hky.baseName] at hname
    exact hfree.distinct g hg k hk (hgx.isDeclared ▸ hxother)
      (hky.isDeclared ▸ hyother) hscope hname
  free x hx hxother hscope htaken := by
    obtain ⟨g, hg, hgx⟩ := h.symm.exists_group config hx
    refine hfree.free g hg (hgx.isDeclared ▸ hxother) (hgx.scope? ▸ hscope) ?_
    exact hgx.baseName ▸ h.symm.taken_subset hnames' hnames htaken

end Paired

/-! ## Types side by side -/

/-- Two types agree in all but their names, their fields' order and the order of their members. -/
structure CanonicalType.Agrees (c c' : CanonicalType) : Prop where
  signature : c.signature = c'.signature
  declared : c.declared = c'.declared
  sites : c.sites = c'.sites
  ids : ∀ id, (∃ m ∈ c.members, m.value.id = id) ↔ ∃ m ∈ c'.members, m.value.id = id
  owner : c.owner = c'.owner

theorem CanonicalType.Agrees.of_groups {config : ClientConfig} {c c' : CanonicalType} {g g' : Group}
    (h : c.BelongsTo config g) (h' : c'.BelongsTo config g') (hgg : g.Agrees config g') :
    c.Agrees c' where
  signature := h.signature.trans (hgg.signature.trans h'.signature.symm)
  declared := h.declared.trans (hgg.isDeclared.trans h'.declared.symm)
  sites := h.sites.trans ((sortedDistinct_congr hgg.sites).trans h'.sites.symm)
  ids id := by
    rw [h.members, h'.members]
    exact hgg.memberIds id
  owner := h.owner.trans (hgg.owner.trans h'.owner.symm)

/-- Two places have a type, and it is one. -/
def TypeTable.Shares (t : TypeTable) (p q : Place) : Prop :=
  ∃ c, t.typeAt? p = some c ∧ t.typeAt? q = some c

section Shares

variable {w : Web} {r : Resolution} {config : ClientConfig} {table : TypeTable}
    {a b : Placed Representation}
  {s : String}

/-- The type of a representation has its signature. -/
theorem signs_of_typeAt? (hr : w.Resolves r) (hu : Yields (unify r config) table) (ha : r.Visits a)
    {c : CanonicalType} (hc : table.typeAt? a.place = some c) :
    c ∈ table.types ∧ r.Signs c.signature a := by
  obtain ⟨groups, _, hgroups, htypes⟩ := unify_groups hu
  obtain ⟨_, _, -, -, hnoted⟩ := noted_groupsOf hr hgroups
  have hmem := List.mem_of_find?_eq_some hc
  obtain ⟨hfound, -⟩ := List.find?_eq_some_iff_append.1 hc
  obtain ⟨m, hm, hplace⟩ := List.any_eq_true.1 hfound
  obtain ⟨g, hg, htype⟩ := exists_left_of_forall₂ htypes hmem
  obtain ⟨hbelongs, -⟩ := Group.type_ok htype
  rw [hbelongs.members] at hm
  obtain ⟨hvisited, hsigned⟩ := hnoted.grouped.signed g hg m hm
  have hfilled := (hnoted.noted g hg).filled m hm
  rw [visits_place hr (hnoted.visits m hvisited) ha (of_decide_eq_true hplace)] at hsigned hfilled
  exact ⟨hmem, hfilled, hbelongs.signature ▸ hsigned⟩

/-- A representation with params has a type. -/
theorem exists_typeAt? (hr : w.Resolves r) (hu : Yields (unify r config) table) (ha : r.Visits a)
    (hs : r.Signs s a) : ∃ c, table.typeAt? a.place = some c ∧ c.signature = s := by
  obtain ⟨groups, hgroups, htypes⟩ := unify_types hu
  obtain ⟨reps, us, hreps, hus, hnoted⟩ := noted_groupsOf hr hgroups
  have hplaces : ∀ m ∈ reps ++ us.map (·.representation), ∀ m' ∈ reps ++ us.map (·.representation),
      m.place = m'.place → m.value = m'.value :=
    fun m hm m' hm' => visits_place hr (hnoted.visits m hm) (hnoted.visits m' hm')
  obtain ⟨c, -, hc, hsigned⟩ :=
    typeAt?_of_grouped hnoted.grouped hplaces htypes ((Resolution.visits_iff hreps hus).2 ha) hs.1
  exact ⟨c, hc, Except.ok.inj (hsigned.symm.trans hs.2)⟩

/-- Two representations share a type if they have params and one signature. -/
theorem shares_iff (hr : w.Resolves r) (hu : Yields (unify r config) table) (ha : r.Visits a)
    (hb : r.Visits b) : table.Shares a.place b.place ↔ ∃ s, r.Signs s a ∧ r.Signs s b := by
  constructor
  · rintro ⟨c, hca, hcb⟩
    exact ⟨c.signature, (signs_of_typeAt? hr hu ha hca).2, (signs_of_typeAt? hr hu hb hcb).2⟩
  · rintro ⟨s, hsa, hsb⟩
    obtain ⟨c, hca, hc⟩ := exists_typeAt? hr hu ha hsa
    obtain ⟨d, hdb, hd⟩ := exists_typeAt? hr hu hb hsb
    have hsame : c = d :=
      List.inj_on_of_nodup_map (nodup_signatures hu) (signs_of_typeAt? hr hu ha hca).1
      (signs_of_typeAt? hr hu hb hdb).1 (hc.trans hd.symm)
    exact ⟨c, hca, hsame ▸ hdb⟩

end Shares

/-! ## Tables side by side -/

section Names

variable {r r' : Resolution} {config : ClientConfig} {table table' : TypeTable}
    {c c' : CanonicalType} {g g' : Group}

/-- Types of groups that agree are named alike after their only identifier. -/
theorem name_eq_of_declared (hu : Yields (unify r config) table)
    (hu' : Yields (unify r' config) table') (hc : c ∈ table.types) (hc' : c' ∈ table'.types)
    (h : c.BelongsTo config g) (h' : c'.BelongsTo config g') (hgg : g.Agrees config g')
    (hdeclared : g.isDeclared = true) : c.name = c'.name := by
  obtain ⟨id, hid⟩ := isDeclared_iff.1 hdeclared
  have hone : c.HasOneId id := (ids_eq_singleton_iff h.members).1 hid
  have hone' : c'.HasOneId id := (ids_eq_singleton_iff h'.members).1 (hgg.ids ▸ hid)
  rw [((unify_names hu).byId c hc id hone).1, ((unify_names hu').byId c' hc' id hone').1]

/-- Types of groups that agree are named alike after their base names, if these are free. -/
theorem name_eq_of_baseNames (hu : Yields (unify r config) table)
    (hu' : Yields (unify r' config) table') (hfree : r.BaseNamesFree config)
    (hfree' : r'.BaseNamesFree config) {groups groups' : Groups} (hgroups : groupsOf r = .ok groups)
    (hgroups' : groupsOf r' = .ok groups') (hg : g ∈ groups) (hg' : g' ∈ groups')
    (hc : c ∈ table.types) (hc' : c' ∈ table'.types) (h : c.BelongsTo config g)
    (h' : c'.BelongsTo config g') (hgg : g.Agrees config g') (hother : g.isDeclared = false) :
    c.name = c'.name := by
  rw [unify_baseNames hu hfree hgroups hc hg h.signature hother,
    unify_baseNames hu' hfree' hgroups' hc' hg' h'.signature (hgg.isDeclared ▸ hother),
    hgg.baseName]

end Names

namespace Paired

variable {w w' : Web} {r r' : Resolution} {visited visited' : List (Placed Representation)}
    {used used' : List Usage}
  {groups groups' : Groups} {config : ClientConfig} {table table' : TypeTable}

/-- Base names that are free in one resolution are free in the other, if the first has types. -/
theorem resolution_baseNamesFree (h : Paired w w' r r' visited visited' used used' groups groups')
    (hgroups' : groupsOf r' = .ok groups') (hu : Yields (unify r config) table)
    (hgroups : groupsOf r = .ok groups) (hfree : r.BaseNamesFree config) :
    r'.BaseNamesFree config := by
  intro found' scope' names' hfound' hnames'
  obtain ⟨found, scope, names, hfound, hnames, -⟩ := unify_named hu
  obtain rfl := Except.ok.inj (hgroups.symm.trans hfound)
  obtain rfl := Except.ok.inj (hgroups'.symm.trans hfound')
  exact h.baseNamesFree hnames hnames' (hfree _ _ _ hgroups hnames)

/-- The types of reordered documents belong together. -/
theorem types_matched (h : Paired w w' r r' visited visited' used used' groups groups')
    (hgroups : groupsOf r = .ok groups) (hgroups' : groupsOf r' = .ok groups')
    (hu : Yields (unify r config) table) (hu' : Yields (unify r' config) table') :
    Matched (fun c c' => c.Agrees c' ∧ (c.declared = true → c.name = c'.name) ∧
      (r.BaseNamesFree config → c.name = c'.name)) table.types table'.types := by
  obtain ⟨found, _, hfound, htypes⟩ := unify_groups hu
  obtain ⟨found', _, hfound', htypes'⟩ := unify_groups hu'
  obtain rfl := Except.ok.inj (hgroups.symm.trans hfound)
  obtain rfl := Except.ok.inj (hgroups'.symm.trans hfound')
  refine .of_keys (nodup_signatures hu) (nodup_signatures hu')
    (fun _ _ hcc => hcc.1.signature) ?_ ?_
  · intro c hc
    obtain ⟨g, hg, htype⟩ := exists_left_of_forall₂ htypes hc
    obtain ⟨g', hg', hgg⟩ := h.exists_group config hg
    obtain ⟨c', hc', htype'⟩ := exists_right_of_forall₂ htypes' hg'
    obtain ⟨hbelongs, -⟩ := Group.type_ok htype
    obtain ⟨hbelongs', -⟩ := Group.type_ok htype'
    refine ⟨c', hc', .of_groups hbelongs hbelongs' hgg, fun hdeclared => ?_, fun hfree => ?_⟩
    · exact name_eq_of_declared hu hu' hc hc' hbelongs hbelongs' hgg
        (hbelongs.declared.symm.trans hdeclared)
    · cases hdeclared : g.isDeclared with
      | true => exact name_eq_of_declared hu hu' hc hc' hbelongs hbelongs' hgg hdeclared
      | false =>
        exact name_eq_of_baseNames hu hu' hfree
          (h.resolution_baseNamesFree hgroups' hu hgroups hfree) hgroups
          hgroups' hg hg' hc hc' hbelongs hbelongs' hgg hdeclared
  · intro c' hc'
    obtain ⟨g', hg', htype'⟩ := exists_left_of_forall₂ htypes' hc'
    obtain ⟨g, hg, hgg⟩ := h.symm.exists_group config hg'
    obtain ⟨c, hc, htype⟩ := exists_right_of_forall₂ htypes hg
    refine ⟨c, hc, ?_⟩
    rw [(Group.type_ok htype).1.signature, (Group.type_ok htype').1.signature, hgg.signature]

/-- Representations share a type if their counterparts do. -/
theorem shares (h : Paired w w' r r' visited visited' used used' groups groups')
    (hvisited' : ∀ a, a ∈ visited' ↔ r'.Visits a) (hu : Yields (unify r config) table)
    (hu' : Yields (unify r' config) table') {a b a' b' : Placed Representation}
    (ha : r.Visits a) (hb : r.Visits b) (ha' : r'.Visits a') (hb' : r'.Visits b')
    (haa : a.Reordered a') (hbb : b.Reordered b') (hshares : table.Shares a.place b.place) :
    table'.Shares a'.place b'.place := by
  obtain ⟨s, hsa, hsb⟩ := (shares_iff h.resolves hu ha hb).1 hshares
  exact (shares_iff h.resolves' hu' ha' hb').2
    ⟨s, h.signs haa ((hvisited' a').2 ha') hsa, h.signs hbb ((hvisited' b').2 hb') hsb⟩

end Paired

/-- If two resolutions are the same but for the order of representations of the top level and of
params inside representations, then what they visit belongs together, and so do their types. Two
representations share a type if and only if their counterparts do. A type and its counterpart have
the same signature, are both declared or not, and have the same sites, the same identifiers of
members and the same owner. They have the same name if they are declared, and all have if base names
are free. -/
theorem unify_reordered {w w' : Web} {fuel fuel' : Nat} {r r' : Resolution}
    {m n m' n' : List Notice} (hr : Gives (resolveWith w.loading w.strict fuel w.app) m r n)
    (hr' : Gives (resolveWith w'.loading w'.strict fuel' w'.app) m' r' n') (h : r.Reordered r')
    {config : ClientConfig} {table table' : TypeTable} {s t s' t' : List Notice}
    (hu : Gives (unify r config) s table t) (hu' : Gives (unify r' config) s' table' t') :
    (∀ a, r.Visits a → ∃ a', r'.Visits a' ∧ a.Reordered a') ∧
    (∀ a', r'.Visits a' → ∃ a, r.Visits a ∧ a.Reordered a') ∧
    (∀ a b a' b', r.Visits a → r.Visits b → r'.Visits a' → r'.Visits b' →
      a.Reordered a' → b.Reordered b' →
      (table.Shares a.place b.place ↔ table'.Shares a'.place b'.place)) ∧
    Matched (fun c c' => c.Agrees c' ∧ (c.declared = true → c.name = c'.name) ∧
      (r.BaseNamesFree config → c.name = c'.name)) table.types table'.types := by
  obtain ⟨groups, _, hgroups, -⟩ := unify_groups hu.yields
  obtain ⟨groups', _, hgroups', -⟩ := unify_groups hu'.yields
  obtain ⟨visited, visited', used, used', hvisited, hvisited', hpaired⟩ :=
    paired_groupsOf (Web.resolves_of_gives hr) (Web.resolves_of_gives hr') h hgroups hgroups'
  refine ⟨fun a ha => ?_, fun a' ha' => ?_, ?_,
    hpaired.types_matched hgroups hgroups' hu.yields hu'.yields⟩
  · obtain ⟨a', ha', haa⟩ := hpaired.visits a ((hvisited a).2 ha)
    exact ⟨a', (hvisited' a').1 ha', haa⟩
  · obtain ⟨a, ha, haa⟩ := hpaired.visits' a' ((hvisited' a').2 ha')
    exact ⟨a, (hvisited a).1 ha, haa.symm⟩
  · intro a b a' b' ha hb ha' hb' haa hbb
    exact ⟨hpaired.shares hvisited' hu.yields hu'.yields ha hb ha' hb' haa hbb,
      hpaired.symm.shares hvisited hu'.yields hu.yields ha' hb' ha hb haa.symm hbb.symm⟩

/-- A representation of some texts. -/
def textForm (id : Option String) (names : List String) : Representation :=
  ⟨id, none, none, none, names.map fun name => .inline { name, style := .plain }, []⟩

/-- A description of two forms with the same texts, a memo, and an answer without identifier. `turn`
turns the texts around, and the representations of the top level. -/
def shelfForms (turn : {α : Type} → List α → List α) : Application :=
  let list : Method :=
    ⟨"GET", none, none, [⟨[200], [], [.inline (textForm none (turn ["b", "c"]))], []⟩], []⟩
  let shelf : Resource := ⟨none, some "shelf", [], formMediaType, [], [.inline list], [], []⟩
  ⟨"http://h/d", [], [], [⟨some "http://h/", [shelf]⟩], [],
    turn [.inline (textForm (some "note") (turn ["a", "b"])),
      .inline (textForm (some "form") (turn ["b", "a"])),
      .inline (textForm (some "memo") (turn ["c"]))], [], []⟩

theorem shelfForms_reordered : (shelfForms id).Reordered (shelfForms List.reverse) := by
  have hform : ∀ (id : Option String) (names : List String),
      RepresentationItem.Reordered (.inline (textForm id names))
        (.inline (textForm id names.reverse)) :=
    fun _ names => .inline ⟨rfl, rfl, rfl, rfl, (List.reverse_perm names).symm.map _, rfl⟩
  have hanswer : Response.Reordered ⟨[200], [], [.inline (textForm none ["b", "c"])], []⟩
      ⟨[200], [], [.inline (textForm none ["b", "c"].reverse)], []⟩ :=
        ⟨rfl, rfl, .cons (hform none _) .nil, rfl⟩
  exact {
    baseUri := rfl
    docs := rfl
    grammars := rfl
    resources := .cons ⟨rfl, .cons (.mk rfl rfl rfl rfl rfl
      (.cons (.inline ⟨rfl, rfl, .none, .cons hanswer .nil, rfl⟩) .nil) rfl
        (List.forall_mem_nil _) rfl) .nil⟩ .nil
    resourceTypes := .nil
    representations :=
      ⟨_, .cons (hform (some "note") ["a", "b"]) (.cons (hform (some "form") ["b", "a"])
      (.cons (hform (some "memo") ["c"]) .nil)), (List.reverse_perm _).symm⟩
    params := rfl
    methods := .nil }

theorem unify_reordered_shelfForms :
    let w : Web := ⟨shelfForms id, none, false⟩
    let w' : Web := ⟨shelfForms List.reverse, none, false⟩
    let top (n : Nat) : Place := ⟨"http://h/d", [.representation n]⟩
    ∃ r r' table t table' t', Gives (resolveWith w.loading w.strict 0 w.app) [] r [] ∧
      Gives (resolveWith w'.loading w'.strict 0 w'.app) [] r' [] ∧ r.Reordered r' ∧
      Gives (unify r {}) [] table t ∧ Gives (unify r' {}) [] table' t' ∧
      table.types.map (·.name) = ["FormOrNote", "Memo", "ShelfGetResponse"] ∧
      table'.types.map (·.name) = ["Memo", "FormOrNote", "ShelfGetResponse"] ∧
      table.Shares (top 0) (top 1) ∧ table'.Shares (top 2) (top 1) ∧
      r.BaseNamesFree {} ∧
      Matched (fun c c' => c.Agrees c' ∧ c.name = c'.name) table.types table'.types := by
  intro w w' top
  let r : Resolution := ⟨w.app, [], [("http://h/d", w.app)]⟩
  let r' : Resolution := ⟨w'.app, [], [("http://h/d", w'.app)]⟩
  have hr : Gives (resolveWith w.loading w.strict 0 w.app) [] r [] := by rfl
  have hr' : Gives (resolveWith w'.loading w'.strict 0 w'.app) [] r' [] := by rfl
  have hreordered : r.Reordered r' := by
    refine ⟨shelfForms_reordered, fun uri => ?_⟩
    rw [List.lookup_cons, List.lookup_cons]
    split
    · exact .some shelfForms_reordered
    · exact .none
  let named (names : List String) (table : TypeTable) : Bool := table.types.map (·.name) = names
  obtain ⟨table, t, hu, hnames⟩ := exists_gives_of_any (x := unify r {}) (s := [])
    (p := named ["FormOrNote", "Memo", "ShelfGetResponse"]) (by decide +kernel)
  obtain ⟨table', t', hu', hnames'⟩ := exists_gives_of_any (x := unify r' {}) (s := [])
    (p := named ["Memo", "FormOrNote", "ShelfGetResponse"]) (by decide +kernel)
  have hfree : r.BaseNamesFree {} := by decide +kernel
  obtain ⟨-, -, hshares, htypes⟩ := unify_reordered hr hr' hreordered hu hu'
  let note : Placed Representation := ⟨textForm (some "note") ["a", "b"], top 0⟩
  let form : Placed Representation := ⟨textForm (some "form") ["b", "a"], top 1⟩
  let note' : Placed Representation := ⟨textForm (some "note") ["b", "a"], top 2⟩
  let form' : Placed Representation := ⟨textForm (some "form") ["a", "b"], top 1⟩
  have hnote : r.Visits note := Or.inl ⟨0, .inline note.value, by decide, rfl⟩
  have hform : r.Visits form := Or.inl ⟨1, .inline form.value, by decide, rfl⟩
  have hnote' : r'.Visits note' := Or.inl ⟨2, .inline note'.value, by decide, rfl⟩
  have hform' : r'.Visits form' := Or.inl ⟨1, .inline form'.value, by decide, rfl⟩
  have hone : table.Shares (top 0) (top 1) := by
    let text (name : String) : Param := { name, style := .plain }
    have hkeys : ([text "b", text "a"].map FieldKey.ofParam).Perm
        ([text "a", text "b"].map FieldKey.ofParam) :=
      .swap _ _ []
    have hsame : signatureOf [text "b", text "a"] = signatureOf [text "a", text "b"] :=
      congrArg (fun s => Sha1.hexDigest (utf8Bytes s)) (FieldKey.listText_eq_iff.2 hkeys)
    exact (shares_iff (Web.resolves_of_gives hr) hu.yields hnote hform).2
      ⟨signatureOf [text "a", text "b"], ⟨List.cons_ne_nil _ _, rfl⟩,
        ⟨List.cons_ne_nil _ _, hsame ▸ rfl⟩⟩
  have hone' : table'.Shares (top 2) (top 1) :=
    (hshares note form note' form' hnote hform hnote' hform'
      ⟨⟨rfl, rfl, rfl, rfl, .swap _ _ [], rfl⟩, ⟨rfl, .inr ⟨0, 2, rfl, rfl⟩⟩⟩
      ⟨⟨rfl, rfl, rfl, rfl, .swap _ _ [], rfl⟩, ⟨rfl, .inl rfl⟩⟩).1 hone
  obtain ⟨types, hall, hperm⟩ := htypes
  exact ⟨r, r', table, t, table', t', hr, hr', hreordered, hu, hu', of_decide_eq_true hnames,
    of_decide_eq_true hnames', hone, hone', hfree, types,
    hall.imp fun _ _ hcc => ⟨hcc.1, hcc.2.2 hfree⟩, hperm⟩

end Wadl
