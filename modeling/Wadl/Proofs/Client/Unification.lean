import Mathlib.Data.List.Nodup
import Wadl.Client.TypeTable
import Wadl.Proofs.Client.Signature
import Wadl.Proofs.Resolution.Places

/-!
# Which representations share a type

`unify` visits the representations of the top level and then those that methods take and answer,
each with its place (`Resolution.Visits`). The groups that it makes have different signatures, and
each holds visited representations of its signature (`Grouped`, which every visit keeps). Naming and
the search for enums leave the groups as they are (`unify_types`), so that two representations share
a type if and only if they have one signature (`typeAt?_eq_iff_signature`).
-/

namespace Wadl

open Unify

/-! ## Groups -/

/-- A representation of the top level, or one that a method takes or answers. -/
def Resolution.Visits (r : Resolution) (rep : Placed Representation) : Prop :=
  (∃ n item, (item, n) ∈ r.app.representations.zipIdx ∧
    r.representation ⟨r.app.baseUri, [.representation n]⟩ item = .ok rep) ∨
  ∃ us, r.usages = .ok us ∧ ∃ u ∈ us, u.representation = rep

/-- The representations of the top level. -/
def Resolution.topRepresentations (r : Resolution) :
    Except ResolveError (List (Placed Representation)) :=
  r.app.representations.zipIdx.mapM fun x =>
    r.representation ⟨r.app.baseUri, [.representation x.2]⟩ x.1

/-- The representations of the top level and those that are used are all that are visited. -/
theorem Resolution.visits_iff {r : Resolution}
    {reps : List (Placed Representation)} {us : List Usage}
    (hreps : r.topRepresentations = .ok reps) (hus : r.usages = .ok us)
    {rep : Placed Representation} : rep ∈ reps ++ us.map (·.representation) ↔ r.Visits rep := by
  rw [List.mem_append, Result.mem_mapM_ok hreps, List.mem_map, Resolution.Visits]
  constructor
  · rintro (⟨⟨item, n⟩, hmem, hrep⟩ | ⟨u, hu, hrep⟩)
    · exact Or.inl ⟨n, item, hmem, hrep⟩
    · exact Or.inr ⟨us, hus, u, hu, hrep⟩
  · rintro (⟨n, item, hmem, hrep⟩ | ⟨us', hus', u, hu, hrep⟩)
    · exact Or.inl ⟨⟨item, n⟩, hmem, hrep⟩
    · obtain rfl := Except.ok.inj (hus.symm.trans hus')
      exact Or.inr ⟨u, hu, hrep⟩

/-- What a visit does: a representation without params and one that is a member already change
nothing; any other joins the group of its signature, or is a new group. -/
inductive Unify.Added (r : Resolution) (groups : Groups) (rep : Placed Representation) :
    Groups → Option String → Prop where
  | skip (empty : rep.value.params = []) : Added r groups rep groups none
  | known {g : Group} (filled : rep.value.params ≠ []) (mem : g ∈ groups)
      (member : ∃ m ∈ g.members, m.place = rep.place) : Added r groups rep groups (some g.signature)
  | join {signature : String} (filled : rep.value.params ≠ [])
      (signed : r.signature rep.value.params = .ok signature)
      (any : ∃ g ∈ groups, g.signature = signature) :
      Added r groups rep (groups.map fun g =>
        if g.signature = signature then { g with members := g.members ++ [rep] } else g)
          (some signature)
  | new {signature : String} (filled : rep.value.params ≠ [])
      (signed : r.signature rep.value.params = .ok signature)
      (fresh : ∀ g ∈ groups, g.signature ≠ signature) :
      Added r groups rep (groups ++ [⟨signature, [rep], [], [], []⟩]) (some signature)

theorem Unify.added_of_ok {r : Resolution} {groups groups' : Groups} {rep : Placed Representation}
    {signature : Option String} (h : Unify.add r groups rep = .ok (groups', signature)) :
    Added r groups rep groups' signature := by
  unfold Unify.add at h
  split at h
  · rename_i hempty
    obtain ⟨rfl, rfl⟩ := Prod.mk.inj (Result.pure_ok.1 h)
    exact .skip (List.isEmpty_iff.1 hempty)
  · rename_i hfilled
    have hne : rep.value.params ≠ [] := fun hnil => hfilled (List.isEmpty_iff.2 hnil)
    split at h
    · rename_i g hfind
      obtain ⟨rfl, rfl⟩ := Prod.mk.inj (Result.pure_ok.1 h)
      have hany := List.find?_some hfind
      simp only [List.any_eq_true, decide_eq_true_eq] at hany
      exact .known hne (List.mem_of_find?_eq_some hfind) hany
    · obtain ⟨s, hs, h⟩ := Result.bind_ok.1 h
      have hsigned := Result.mapError_ok.1 hs
      split at h
      · rename_i hany
        obtain ⟨rfl, rfl⟩ := Prod.mk.inj (Result.pure_ok.1 h)
        simp only [List.any_eq_true, decide_eq_true_eq] at hany
        exact .join hne hsigned hany
      · rename_i hany
        obtain ⟨rfl, rfl⟩ := Prod.mk.inj (Result.pure_ok.1 h)
        refine .new hne hsigned fun g hg heq => hany ?_
        simp only [List.any_eq_true, decide_eq_true_eq]
        exact ⟨g, hg, heq⟩

section Visits

variable {r : Resolution} {P : List (Placed Representation) → List Usage → Groups → Prop}

/-- What each visit keeps is kept while representations of the top level are visited. -/
theorem foldlM_topRepresentations
    (top : ∀ {visited rep groups groups' signature}, r.Visits rep → P visited [] groups →
      Unify.add r groups rep = .ok (groups', signature) → P (visited ++ [rep]) [] groups')
    {items : List (RepresentationItem × Nat)} (hitems : items ⊆ r.app.representations.zipIdx)
    {visited : List (Placed Representation)} {groups groups' : Groups} (hp : P visited [] groups)
    (h : items.foldlM (fun groups x => do
      let rep ← (r.representation ⟨r.app.baseUri, [.representation x.2]⟩ x.1).mapError
        GenerationError.reference
      return (← add r groups rep).1) groups = .ok groups') :
    ∃ reps, items.mapM (fun x => r.representation ⟨r.app.baseUri, [.representation x.2]⟩ x.1) =
      .ok reps ∧ P (visited ++ reps) [] groups' := by
  induction items generalizing visited groups with
  | nil =>
    rw [List.foldlM_nil] at h
    rw [← Result.pure_ok.1 h]
    exact ⟨[], rfl, by rwa [List.append_nil]⟩
  | cons x items ih =>
    rw [List.foldlM_cons] at h
    obtain ⟨next, hnext, h⟩ := Result.bind_ok.1 h
    obtain ⟨rep, hrep, hnext⟩ := Result.bind_ok.1 hnext
    obtain ⟨⟨added, signature⟩, hadd, hnext⟩ := Result.bind_ok.1 hnext
    obtain rfl := Result.pure_ok.1 hnext
    have hrep := Result.mapError_ok.1 hrep
    have hvisits : r.Visits rep := Or.inl ⟨x.2, x.1, hitems List.mem_cons_self, hrep⟩
    obtain ⟨reps, hreps, hall⟩ := ih (List.subset_of_cons_subset hitems) (top hvisits hp hadd) h
    refine ⟨rep :: reps, ?_, by rwa [List.append_assoc] at hall⟩
    rw [List.mapM_cons]
    exact Result.bind_ok.2 ⟨rep, hrep, Result.bind_ok.2 ⟨reps, hreps, rfl⟩⟩

/-- What each visit keeps is kept while usages are visited. -/
theorem foldlM_usages {us : List Usage}
    (use : ∀ {u visited used groups groups'}, u ∈ us → P visited used groups →
      Unify.addUsage r groups u = .ok groups' →
      P (visited ++ [u.representation]) (used ++ [u]) groups')
    {more : List Usage} (hmore : more ⊆ us) {used : List Usage}
    {visited : List (Placed Representation)} {groups groups' : Groups} (hp : P visited used groups)
    (h : more.foldlM (addUsage r) groups = .ok groups') :
    P (visited ++ more.map (·.representation)) (used ++ more) groups' := by
  induction more generalizing used visited groups with
  | nil =>
    rw [List.foldlM_nil] at h
    rwa [← Result.pure_ok.1 h, List.map_nil, List.append_nil, List.append_nil]
  | cons u more ih =>
    rw [List.foldlM_cons] at h
    obtain ⟨next, hnext, h⟩ := Result.bind_ok.1 h
    have hrest := ih (List.subset_of_cons_subset hmore) (use (hmore List.mem_cons_self) hp hnext) h
    rwa [List.append_assoc, List.append_assoc] at hrest

/-- What holds of no groups and is kept by each visit holds of all groups in the end. -/
theorem groupsOf_induct (start : P [] [] [])
    (top : ∀ {visited rep groups groups' signature}, r.Visits rep → P visited [] groups →
      Unify.add r groups rep = .ok (groups', signature) → P (visited ++ [rep]) [] groups')
    (use : ∀ {us u visited used groups groups'}, r.usages = .ok us → u ∈ us →
      P visited used groups → Unify.addUsage r groups u = .ok groups' →
      P (visited ++ [u.representation]) (used ++ [u]) groups')
    {groups : Groups} (h : groupsOf r = .ok groups) :
    ∃ reps us, r.topRepresentations = .ok reps ∧ r.usages = .ok us ∧
      P (reps ++ us.map (·.representation)) us groups := by
  obtain ⟨declared, hdeclared, h⟩ := Result.bind_ok.1 h
  obtain ⟨us, hus, h⟩ := Resolution.foldUsages_ok.1 h
  obtain ⟨reps, hreps, hstart⟩ :=
    foldlM_topRepresentations top (List.Subset.refl _) start hdeclared
  exact ⟨reps, us, hreps, hus, foldlM_usages (use hus) (List.Subset.refl us) hstart h⟩

end Visits

/-- Groups with different signatures: their members were visited, have params and the signature of
their group, and every visited representation with params is a member at its place. -/
structure Grouped (r : Resolution) (visited : List (Placed Representation)) (groups : Groups) :
    Prop where
  nodup : (groups.map (·.signature)).Nodup
  signed : ∀ g ∈ groups, ∀ m ∈ g.members, m ∈ visited ∧ r.signature m.value.params = .ok g.signature
  covered : ∀ rep ∈ visited, rep.value.params ≠ [] → ∃ g ∈ groups, ∃ m ∈ g.members,
    m.place = rep.place

namespace Grouped

variable {r : Resolution} {visited : List (Placed Representation)} {groups groups' : Groups}

theorem nil (r : Resolution) : Grouped r [] [] where
  nodup := List.nodup_nil
  signed _ hg := by cases hg
  covered _ hrep := by cases hrep

/-- What is noted of a group besides its signature and its members does not matter. -/
theorem map (h : Grouped r visited groups) {f : Group → Group}
    (hsignature : ∀ g, (f g).signature = g.signature) (hmembers : ∀ g, (f g).members = g.members) :
    Grouped r visited (groups.map f) := by
  refine ⟨?_, fun g hg m hm => ?_, fun rep hrep hne => ?_⟩
  · rw [List.map_map, show (fun g : Group => g.signature) ∘ f =
      (·.signature) from funext hsignature]
    exact h.nodup
  · obtain ⟨g', hg', rfl⟩ := List.mem_map.1 hg
    rw [hmembers] at hm
    rw [hsignature]
    exact h.signed g' hg' m hm
  · obtain ⟨g, hg, m, hm, hplace⟩ := h.covered rep hrep hne
    exact ⟨f g, List.mem_map_of_mem hg, m, by rwa [hmembers], hplace⟩

/-- A representation that needs no new member is visited. -/
theorem visit (h : Grouped r visited groups) {rep : Placed Representation}
    (hrep : rep.value.params ≠ [] → ∃ g ∈ groups, ∃ m ∈ g.members, m.place = rep.place) :
    Grouped r (visited ++ [rep]) groups := by
  refine ⟨h.nodup, fun g hg m hm => ?_, fun rep' hrep' hne => ?_⟩
  · exact ⟨List.mem_append_left _ (h.signed g hg m hm).1, (h.signed g hg m hm).2⟩
  · rcases List.mem_append.1 hrep' with hrep' | hrep'
    · exact h.covered rep' hrep' hne
    · obtain rfl := List.mem_singleton.1 hrep'
      exact hrep hne

/-- A representation joins the group of its signature. -/
theorem join (h : Grouped r visited groups) {rep : Placed Representation} {signature : String}
    (hrep : r.signature rep.value.params = .ok signature)
    (hany : ∃ g ∈ groups, g.signature = signature) :
    Grouped r (visited ++ [rep]) (groups.map fun g =>
      if g.signature = signature then { g with members := g.members ++ [rep] } else g) := by
  refine ⟨?_, fun g hg m hm => ?_, fun rep' hrep' hne => ?_⟩
  · have hsame : ((fun g : Group => g.signature) ∘ fun g : Group =>
        if g.signature = signature then { g with members := g.members ++ [rep] } else g) =
        fun g => g.signature := by
      funext g
      simp only [Function.comp_apply]
      split <;> rfl
    rw [List.map_map, hsame]
    exact h.nodup
  · obtain ⟨g', hg', rfl⟩ := List.mem_map.1 hg
    have hold := h.signed g' hg'
    split at hm
    · rename_i hsignature
      rw [if_pos hsignature]
      rcases List.mem_append.1 hm with hm | hm
      · exact ⟨List.mem_append_left _ (hold m hm).1, (hold m hm).2⟩
      · rw [List.mem_singleton.1 hm, hrep, ← hsignature]
        exact ⟨List.mem_append_right _ (List.mem_singleton_self _), rfl⟩
    · rename_i hsignature
      rw [if_neg hsignature]
      exact ⟨List.mem_append_left _ (hold m hm).1, (hold m hm).2⟩
  · rcases List.mem_append.1 hrep' with hrep' | hrep'
    · obtain ⟨g, hg, m, hm, hplace⟩ := h.covered rep' hrep' hne
      refine ⟨_, List.mem_map_of_mem hg, m, ?_, hplace⟩
      split
      · exact List.mem_append_left _ hm
      · exact hm
    · obtain rfl := List.mem_singleton.1 hrep'
      obtain ⟨g, hg, hsignature⟩ := hany
      refine ⟨_, List.mem_map_of_mem hg, rep', ?_, rfl⟩
      rw [if_pos hsignature]
      exact List.mem_append_right _ (List.mem_singleton_self _)

/-- A representation of a new signature is a new group. -/
theorem append (h : Grouped r visited groups) {rep : Placed Representation} {signature : String}
    (hrep : r.signature rep.value.params = .ok signature)
    (hnew : ∀ g ∈ groups, g.signature ≠ signature) :
    Grouped r (visited ++ [rep]) (groups ++ [⟨signature, [rep], [], [], []⟩]) := by
  refine ⟨?_, fun g hg m hm => ?_, fun rep' hrep' hne => ?_⟩
  · rw [List.map_append, List.nodup_append]
    refine ⟨h.nodup, List.nodup_singleton _, ?_⟩
    intro x hx y hy heq
    obtain ⟨g, hg, rfl⟩ := List.mem_map.1 hx
    rw [List.map_singleton, List.mem_singleton] at hy
    exact hnew g hg (heq.trans hy)
  · rcases List.mem_append.1 hg with hg | hg
    · exact ⟨List.mem_append_left _ (h.signed g hg m hm).1, (h.signed g hg m hm).2⟩
    · rw [List.mem_singleton.1 hg] at hm ⊢
      rw [List.mem_singleton.1 hm]
      exact ⟨List.mem_append_right _ (List.mem_singleton_self _), hrep⟩
  · rcases List.mem_append.1 hrep' with hrep' | hrep'
    · obtain ⟨g, hg, hm⟩ := h.covered rep' hrep' hne
      exact ⟨g, List.mem_append_left _ hg, hm⟩
    · obtain rfl := List.mem_singleton.1 hrep'
      exact ⟨_, List.mem_append_right _ (List.mem_singleton_self _), rep',
        List.mem_singleton_self _, rfl⟩

/-- Each visit keeps the groups as they should be. -/
theorem add (h : Grouped r visited groups) {rep : Placed Representation} {signature : Option String}
    (hadd : Unify.add r groups rep = .ok (groups', signature)) :
    Grouped r (visited ++ [rep]) groups' := by
  cases added_of_ok hadd with
  | skip empty => exact h.visit fun hne => absurd empty hne
  | @known g _ mem member => exact h.visit fun _ => ⟨g, mem, member⟩
  | join _ signed any => exact h.join signed any
  | new _ signed fresh => exact h.append signed fresh

theorem addUsage (h : Grouped r visited groups) {u : Usage}
    (hadd : Unify.addUsage r groups u = .ok groups') :
    Grouped r (visited ++ [u.representation]) groups' := by
  obtain ⟨⟨added, signature⟩, hadded, hadd⟩ := Result.bind_ok.1 hadd
  have hgrouped := h.add hadded
  simp only at hadd
  split at hadd
  · rw [← Result.pure_ok.1 hadd]
    exact hgrouped
  · rw [← Result.pure_ok.1 hadd]
    refine hgrouped.map (fun g => ?_) (fun g => ?_)
    · split <;> rfl
    · split <;> rfl

end Grouped

/-- The groups at the end hold all representations that are visited. -/
theorem grouped_groupsOf {r : Resolution} {groups : Groups} (h : groupsOf r = .ok groups) :
    ∃ visited, (∀ rep, rep ∈ visited ↔ r.Visits rep) ∧ Grouped r visited groups := by
  obtain ⟨reps, us, hreps, hus, hgrouped⟩ :=
    groupsOf_induct (P := fun visited _ groups => Grouped r visited groups)
    (Grouped.nil r) (fun _ hgrouped hadd => hgrouped.add hadd)
      (fun _ _ hgrouped hadd => hgrouped.addUsage hadd) h
  exact ⟨_, fun _ => Resolution.visits_iff hreps hus, hgrouped⟩

/-! ## Types -/

/-- An enum has for each of its values a name of its own. -/
structure EnumType.WellNamed (e : EnumType) : Prop where
  members : e.members = e.values.map fun value => (constant value, value)
  nodup : (e.members.map (·.1)).Nodup

/-- The values of an enum are named one after another, and no name is given twice. -/
theorem enumMembers_ok {param : String} {values : List String}
    {seen members : List (String × String)} (h : enumMembers param seen values = .ok members)
    (hseen : (seen.map (·.1)).Nodup) :
    members = seen ++ values.map (fun value => (constant value, value)) ∧
      (members.map (·.1)).Nodup := by
  induction values generalizing seen with
  | nil =>
    obtain rfl := Except.ok.inj h
    exact ⟨by rw [List.map_nil, List.append_nil], hseen⟩
  | cons value rest ih =>
    rw [enumMembers] at h
    split at h
    · cases h
    · rename_i hnew
      have hnodup : ((seen ++ [(constant value, value)]).map (·.1)).Nodup := by
        rw [List.map_append, List.map_singleton, List.nodup_append_comm,
          List.singleton_append, List.nodup_cons]
        refine ⟨fun hmem => ?_, hseen⟩
        obtain ⟨x, hx, hname⟩ := List.mem_map.1 hmem
        exact absurd hname.symm (bne_iff_ne.1 (List.lookup_eq_none_iff.1 hnew x hx))
      obtain ⟨hmembers, hall⟩ := ih h hnodup
      rw [List.append_assoc] at hmembers
      exact ⟨hmembers, hall⟩

/-- A param leaves a table as it is if it has no options or its enum is there, and else adds one
with its options. -/
theorem addEnum_cases {context : String} {t t' : TypeTable} {p : Param}
    (h : addEnum context t p = .ok t') :
    (t' = t ∧ (p.options = [] ∨ (t.enumFor? p).isSome = true)) ∨
      (p.options ≠ [] ∧ ∃ (scope : NameScope) (e : EnumType), e.param = p.name ∧
        e.values = p.options.map (·.value) ∧ e.WellNamed ∧
        t' = { t with scope, enums := t.enums ++ [e] }) := by
  unfold addEnum at h
  split at h
  · rename_i hknown
    rw [Bool.or_eq_true, List.isEmpty_iff] at hknown
    exact Or.inl ⟨(Result.pure_ok.1 h).symm, hknown⟩
  · rename_i hnew
    rw [Bool.or_eq_true, List.isEmpty_iff, not_or] at hnew
    obtain ⟨members, hmembers, h⟩ := Result.bind_ok.1 h
    obtain ⟨hmade, hnodup⟩ := enumMembers_ok hmembers List.nodup_nil
    rw [List.nil_append] at hmade
    have hvalues : members.map (·.2) = p.options.map (·.value) := by simp [hmade]
    refine Or.inr ⟨hnew.1, _, ⟨_, p.name, members⟩, rfl, hvalues, ⟨?_, hnodup⟩,
      (Result.pure_ok.1 h).symm⟩
    rw [EnumType.values, hvalues]
    exact hmade

theorem addEnum_types {context : String} {t t' : TypeTable} {p : Param}
    (h : addEnum context t p = .ok t') : t'.types = t.types := by
  rcases addEnum_cases h with ⟨rfl, -⟩ | ⟨-, scope, e, -, -, -, rfl⟩
  · rfl
  · rfl

section Keeps

variable {r : Resolution} {Inv : TypeTable → Prop} {t t' : TypeTable}

/-- What holds of a table and is kept with each new enum is kept with the enums of some params. -/
theorem addEnums_keeps {context : String} {items : List ParamItem}
    (step : ∀ t t' p, Inv t → addEnum context t p = .ok t' → Inv t') (ht : Inv t)
    (h : addEnums r context t items = .ok t') : Inv t' := by
  refine Result.foldlM_keeps Inv (fun u u' item _ hu hitem => ?_) ht h
  obtain ⟨p, -, hitem⟩ := Result.bind_ok.1 hitem
  exact step u u' p hu hitem

theorem addMethodEnums_keeps {c : Container} {m : Method}
    (step : ∀ text t t' p, Inv t → addEnum (c.name ++ pascal text) t p = .ok t' → Inv t')
    (ht : Inv t) (h : addMethodEnums r c t m = .ok t') : Inv t' := by
  have hresponses : ∀ {u : TypeTable}, Inv u → m.responses.foldlM (fun t response =>
      addEnums r (c.name ++ pascal (firstNonEmpty [m.id, some m.name])) t response.params) u =
        .ok t' →
      Inv t' := fun hu h =>
    Result.foldlM_keeps Inv (fun _ _ _ _ hv hx => addEnums_keeps (step _) hv hx) hu h
  unfold addMethodEnums at h
  cases hreq : m.request with
  | none =>
    rw [hreq] at h
    exact hresponses ht h
  | some request =>
    rw [hreq] at h
    obtain ⟨u, hu, h⟩ := Result.bind_ok.1 h
    exact hresponses (addEnums_keeps (step _) ht hu) h

/-- What is kept with each new enum is kept with the enums of some containers. -/
theorem addContainersEnums_keeps {cs : List Container} {P : String → Prop}
    (hcontainers : ∀ c ∈ cs, P c.name ∧ ∀ text, P (c.name ++ pascal text))
    (step : ∀ context, P context → ∀ t t' p, Inv t → addEnum context t p = .ok t' → Inv t')
    (ht : Inv t) (h : cs.foldlM (addContainerEnums r) t = .ok t') : Inv t' := by
  refine Result.foldlM_keeps Inv (fun v v' c hc hv hx => ?_) ht h
  obtain ⟨hname, hmethod⟩ := hcontainers c hc
  obtain ⟨w, hw, hx⟩ := Result.bind_ok.1 hx
  obtain ⟨ms, -, hx⟩ := Result.bind_ok.1 hx
  exact Result.foldlM_keeps Inv
    (fun x x' m _ hx' hm => addMethodEnums_keeps (fun text => step _ (hmethod text)) hx' hm)
    (addEnums_keeps (step c.name hname) hv hw) hx

variable (Inv) in
/-- What is kept with each new enum, the search for enums keeps. `P` holds of all texts that are put
before the names of enums. -/
theorem collectEnums_keeps (P : String → Prop) (htypes : ∀ c ∈ t.types, P c.name)
    (hcontainers : ∀ c ∈ r.containers, P c.name ∧ ∀ text, P (c.name ++ pascal text))
    (step : ∀ context, P context → ∀ t t' p, Inv t → addEnum context t p = .ok t' → Inv t')
    (ht : Inv t) (h : collectEnums r t = .ok t') : Inv t' := by
  obtain ⟨u, hu, h⟩ := Result.bind_ok.1 h
  have hstart : Inv u := by
    refine Result.foldlM_keeps Inv (fun v v' c hc hv hx => ?_) ht hu
    exact Result.foldlM_keeps Inv
      (fun w w' p _ hw hp => step c.name (htypes c hc) w w' p hw hp) hv hx
  exact addContainersEnums_keeps hcontainers step hstart h

end Keeps

/-- The search for enums leaves the types as they are. -/
theorem collectEnums_types {r : Resolution} {t t' : TypeTable} (h : collectEnums r t = .ok t') :
    t'.types = t.types :=
  collectEnums_keeps (fun u => u.types = t.types) (fun _ => True) (fun _ _ => trivial)
    (fun _ _ => ⟨trivial, fun _ => trivial⟩)
    (fun _ _ _ _ _ hu hx => (addEnum_types hx).trans hu) rfl h

/-- A type belongs to a group: it has its parts. -/
structure CanonicalType.BelongsTo (config : ClientConfig) (c : CanonicalType) (g : Group) :
    Prop where
  signature : c.signature = g.signature
  members : c.members = g.members
  sites : c.sites = sortedDistinct g.sites
  declared : c.declared = (g.ids.length == 1)
  owner : c.owner = g.owner? config

theorem Unify.Group.type_ok {r : Resolution} {config : ClientConfig}
    {names : List (String × String)} {g : Group} {c : CanonicalType}
    (h : g.type r config names = .ok c) :
    c.BelongsTo config g ∧ c.name = (names.lookup g.signature).getD "" := by
  obtain ⟨fields, -, h⟩ := Result.bind_ok.1 h
  rw [← Result.pure_ok.1 h]
  exact ⟨⟨rfl, rfl, rfl, rfl, rfl⟩, rfl⟩

/-- The types of a table are those of its groups, with the names that are taken for these. -/
theorem unify_named {r : Resolution} {config : ClientConfig} {table : TypeTable}
    (h : Yields (unify r config) table) :
    ∃ groups scope declared, groupsOf r = .ok groups ∧
      nameDeclared (moduleScope config) groups = .ok (scope, declared) ∧
      List.Forall₂ (fun g c =>
        g.type r config (declared ++ (nameOthers config scope [] groups).2) = .ok c)
        groups table.types := by
  obtain ⟨groups, hgroups, h⟩ := h.bind
  obtain ⟨⟨scope, declared⟩, hdeclared, h⟩ := h.bind
  simp only at h
  obtain ⟨types, htypes, h⟩ := h.bind
  obtain ⟨_, -, h⟩ := h.bind
  have hsame : table.types = types := collectEnums_types h.lift
  have hall := htypes.mapM.imp fun g c hc => hc.lift
  exact ⟨groups, scope, declared, hgroups.lift, hdeclared.lift, hsame ▸ hall⟩

/-- The enums of a table are those that the search for them adds to its types. -/
theorem unify_collects {r : Resolution} {config : ClientConfig} {table : TypeTable}
    (h : Yields (unify r config) table) :
    ∃ scope, collectEnums r ⟨scope, table.types, []⟩ = .ok table := by
  obtain ⟨groups, -, h⟩ := h.bind
  obtain ⟨⟨scope, declared⟩, -, h⟩ := h.bind
  simp only at h
  obtain ⟨types, -, h⟩ := h.bind
  obtain ⟨_, -, h⟩ := h.bind
  obtain rfl : table.types = types := collectEnums_types h.lift
  exact ⟨_, h.lift⟩

/-- The types of a table are those of its groups. -/
theorem unify_groups {r : Resolution} {config : ClientConfig} {table : TypeTable}
    (h : Yields (unify r config) table) :
    ∃ groups names, groupsOf r = .ok groups ∧
      List.Forall₂ (fun g c => g.type r config names = .ok c) groups table.types := by
  obtain ⟨groups, _, _, hgroups, -, htypes⟩ := unify_named h
  exact ⟨groups, _, hgroups, htypes⟩

/-- The types of a table have the signatures and members of its groups. -/
theorem unify_types {r : Resolution} {config : ClientConfig} {table : TypeTable}
    (h : Yields (unify r config) table) :
    ∃ groups, groupsOf r = .ok groups ∧
      table.types.map (fun c => (c.signature, c.members)) =
        groups.map fun g => (g.signature, g.members) := by
  obtain ⟨groups, names, hgroups, htypes⟩ := unify_groups h
  refine ⟨groups, hgroups, ?_⟩
  rw [eq_comm, ← List.forall₂_eq_eq_eq, List.forall₂_map_left_iff, List.forall₂_map_right_iff]
  refine htypes.imp fun g c hc => ?_
  obtain ⟨hbelongs, -⟩ := Group.type_ok hc
  rw [hbelongs.signature, hbelongs.members]

/-- No two types have one signature. -/
theorem nodup_signatures {r : Resolution} {config : ClientConfig} {table : TypeTable}
    (h : Yields (unify r config) table) : (table.types.map (·.signature)).Nodup := by
  obtain ⟨groups, hgroups, htypes⟩ := unify_types h
  obtain ⟨visited, -, hgrouped⟩ := grouped_groupsOf hgroups
  have hmap := congrArg (List.map Prod.fst) htypes
  rw [List.map_map, List.map_map] at hmap
  exact hmap ▸ hgrouped.nodup

/-- A visited representation with params has a type, and this has its signature. -/
theorem typeAt?_of_grouped {r : Resolution}
    {visited : List (Placed Representation)} {groups : Groups} {table : TypeTable}
    (hgrouped : Grouped r visited groups)
    (hplaces : ∀ m ∈ visited, ∀ m' ∈ visited, m.place = m'.place → m.value = m'.value)
    (htypes : table.types.map (fun c => (c.signature, c.members)) =
      groups.map fun g => (g.signature, g.members))
    {rep : Placed Representation} (hrep : rep ∈ visited) (hne : rep.value.params ≠ []) :
    ∃ c ∈ table.types, table.typeAt? rep.place = some c ∧
      r.signature rep.value.params = .ok c.signature := by
  obtain ⟨g, hg, m, hm, hplace⟩ := hgrouped.covered rep hrep hne
  have hfound : (table.typeAt? rep.place).isSome = true := by
    have hpair : (g.signature, g.members) ∈ table.types.map fun c => (c.signature, c.members) := by
      rw [htypes]
      exact List.mem_map.2 ⟨g, hg, rfl⟩
    obtain ⟨c, hc, heq⟩ := List.mem_map.1 hpair
    rw [TypeTable.typeAt?, List.find?_isSome]
    refine ⟨c, hc, List.any_eq_true.2 ⟨m, ?_, by simpa using hplace⟩⟩
    rw [(Prod.mk.inj heq).2]
    exact hm
  obtain ⟨c, hc⟩ := Option.isSome_iff_exists.1 hfound
  have hmem := List.mem_of_find?_eq_some hc
  have hany := List.find?_eq_some_iff_append.1 hc
  obtain ⟨m', hm', hplace'⟩ := List.any_eq_true.1 hany.1
  have hpair : (c.signature, c.members) ∈ groups.map fun g => (g.signature, g.members) := by
    rw [← htypes]
    exact List.mem_map.2 ⟨c, hmem, rfl⟩
  obtain ⟨g', hg', heq⟩ := List.mem_map.1 hpair
  rw [← (Prod.mk.inj heq).2] at hm'
  obtain ⟨hvisited, hsignature⟩ := hgrouped.signed g' hg' m' hm'
  rw [hplaces m' hvisited rep hrep (by simpa using hplace'), (Prod.mk.inj heq).1] at hsignature
  exact ⟨c, hmem, hc, hsignature⟩

/-- At one place one representation is visited. -/
theorem visits_place {w : Web} {r : Resolution} (hr : w.Resolves r) {a b : Placed Representation}
    (ha : r.Visits a) (hb : r.Visits b) (hplace : a.place = b.place) : a.value = b.value := by
  have hstands : ∀ {rep}, r.Visits rep →
      w.Stands rep.place (.representation (.inline rep.value)) := by
    rintro rep (⟨n, item, hmem, hrep⟩ | ⟨us, hus, u, hu, rfl⟩)
    · refine Web.stands_representation hr (Web.stands_top hr ?_) hrep
      rw [Part.child?, getElem?_of_mem_zipIdx hmem]
      rfl
    · exact Web.stands_usage hr hus hu
  have heq := Web.stands_unique (hstands ha) (hplace ▸ hstands hb)
  exact RepresentationItem.inline.inj (Part.representation.inj heq)

/-- Two representations with params share a type if and only if they have one signature. -/
theorem typeAt?_eq_iff_signature {w : Web} {r : Resolution} (hr : w.Resolves r)
    {config : ClientConfig} {table : TypeTable} (hu : Yields (unify r config) table)
    {a b : Placed Representation} (ha : r.Visits a) (hb : r.Visits b) (hane : a.value.params ≠ [])
    (hbne : b.value.params ≠ []) :
    ∃ s t, r.signature a.value.params = .ok s ∧ r.signature b.value.params = .ok t ∧
      (table.typeAt? a.place).isSome = true ∧ (table.typeAt? b.place).isSome = true ∧
      (table.typeAt? a.place = table.typeAt? b.place ↔ s = t) := by
  obtain ⟨groups, hgroups, htypes⟩ := unify_types hu
  obtain ⟨visited, hvisited, hgrouped⟩ := grouped_groupsOf hgroups
  have hplaces : ∀ m ∈ visited, ∀ m' ∈ visited, m.place = m'.place → m.value = m'.value :=
    fun m hm m' hm' => visits_place hr ((hvisited m).1 hm) ((hvisited m').1 hm')
  obtain ⟨c, hc, hca, hsa⟩ := typeAt?_of_grouped hgrouped hplaces htypes ((hvisited a).2 ha) hane
  obtain ⟨d, hd, hdb, hsb⟩ := typeAt?_of_grouped hgrouped hplaces htypes ((hvisited b).2 hb) hbne
  refine ⟨c.signature, d.signature, hsa, hsb, by rw [hca]; rfl, by rw [hdb]; rfl, ?_⟩
  rw [hca, hdb, Option.some.injEq]
  constructor
  · rintro rfl
    rfl
  · exact List.inj_on_of_nodup_map (nodup_signatures hu) hc hd

/-! ## Fields -/

/-- The fields of some params. -/
def Resolution.fields (r : Resolution) (items : List ParamItem) :
    Except ResolveError (List Field) :=
  List.map Field.ofParam <$> items.mapM r.param

/-- The text whose digest is the signature of params with some fields. -/
def hashedText (fields : List Field) : String := FieldKey.listText (fields.map Field.key)

/-- SHA-1 tells two texts apart. -/
def Separates (s t : String) : Prop :=
  Sha1.hexDigest (utf8Bytes s) = Sha1.hexDigest (utf8Bytes t) → s = t

theorem signature_eq {r : Resolution} {items : List ParamItem} {s : String}
    (h : r.signature items = .ok s) :
    ∃ fields, r.fields items = .ok fields ∧ s = Sha1.hexDigest (utf8Bytes (hashedText fields)) := by
  obtain ⟨ps, hps, h⟩ := Result.bind_ok.1 h
  refine ⟨ps.map Field.ofParam, Result.map_ok.2 ⟨ps, hps, rfl⟩, ?_⟩
  rw [← Result.pure_ok.1 h, signatureOf, hashedText, Field.keys_ofParam]

/-- Plain fields have the same keys, in any order, if and only if they are the same in any order. -/
theorem Field.perm_of_keys_perm {fs gs : List Field} (hplain : ∀ f ∈ fs ++ gs, f.IsPlain)
    (h : (fs.map Field.key).Perm (gs.map Field.key)) : fs.Perm gs := by
  classical
  -- the plain field of a key
  let back : FieldKey → Field := fun k =>
    if hk : ∃ f : Field, f.IsPlain ∧ f.key = k then hk.choose else ⟨"", "", [], [], false, false⟩
  have hback : ∀ f : Field, f.IsPlain → back f.key = f := by
    intro f hf
    have hk : ∃ g : Field, g.IsPlain ∧ g.key = f.key := ⟨f, hf, rfl⟩
    show (if hk : ∃ g : Field, g.IsPlain ∧ g.key = f.key then hk.choose else _) = f
    rw [dif_pos hk]
    exact Field.key_injective hk.choose_spec.1 hf hk.choose_spec.2
  have hmap : ∀ {xs : List Field}, (∀ f ∈ xs, f.IsPlain) → (xs.map Field.key).map back = xs := by
    intro xs hxs
    rw [List.map_map]
    exact (List.map_congr_left fun f hf => hback f (hxs f hf)).trans (List.map_id xs)
  have hperm := h.map back
  rwa [hmap fun f hf => hplain f (List.mem_append_left _ hf),
    hmap fun f hf => hplain f (List.mem_append_right _ hf)] at hperm

/-- Two representations with params share a type if and only if their fields have the same keys, in
any order, provided that SHA-1 tells the texts of these apart. So representations with the same
fields share a type, and only these do if no field has a mark of the keys in it. -/
theorem typeAt?_eq_iff_keys_perm {w : Web} {fuel : Nat} {r : Resolution} {n n' : List Notice}
    (hr : Gives (resolveWith w.loading w.strict fuel w.app) n r n') {config : ClientConfig}
    {table : TypeTable} {s t : List Notice} (hu : Gives (unify r config) s table t)
    {a b : Placed Representation} (ha : r.Visits a) (hb : r.Visits b) (hane : a.value.params ≠ [])
    (hbne : b.value.params ≠ []) :
    ∃ fs gs, r.fields a.value.params = .ok fs ∧ r.fields b.value.params = .ok gs ∧
      (table.typeAt? a.place).isSome = true ∧ (table.typeAt? b.place).isSome = true ∧
      (fs.Perm gs → table.typeAt? a.place = table.typeAt? b.place) ∧
      (Separates (hashedText fs) (hashedText gs) →
        (table.typeAt? a.place = table.typeAt? b.place ↔
          (fs.map Field.key).Perm (gs.map Field.key)) ∧
        ((∀ f ∈ fs ++ gs, f.IsPlain) →
          (table.typeAt? a.place = table.typeAt? b.place ↔ fs.Perm gs))) := by
  obtain ⟨sa, sb, hsa, hsb, hsome, hsome', hiff⟩ :=
    typeAt?_eq_iff_signature (Web.resolves_of_gives hr) hu.yields ha hb hane hbne
  obtain ⟨fs, hfs, rfl⟩ := signature_eq hsa
  obtain ⟨gs, hgs, rfl⟩ := signature_eq hsb
  have hkeys : (fs.map Field.key).Perm (gs.map Field.key) →
      table.typeAt? a.place = table.typeAt? b.place := by
    intro h
    rw [hiff, hashedText, FieldKey.listText_eq_iff.2 h, hashedText]
  refine ⟨fs, gs, hfs, hgs, hsome, hsome', fun h => hkeys (h.map _), fun hsha => ?_⟩
  have hexact : table.typeAt? a.place = table.typeAt? b.place ↔
      (fs.map Field.key).Perm (gs.map Field.key) :=
    ⟨fun h => FieldKey.listText_eq_iff.1 (hsha (hiff.1 h)), hkeys⟩
  exact ⟨hexact, fun hplain => hexact.trans
    ⟨Field.perm_of_keys_perm hplain, fun h => h.map _⟩⟩

/-- A representation with one param that has some options. -/
def withOptions (id : String) (options : List String) : Representation :=
  ⟨some id, some "application/json", none, none, [.inline {
    name := "p", style := .plain, options := options.map fun o => ⟨o, none, []⟩ }], []⟩

/-- A description of two representations: the option of the first has the mark in it that divides
the options of the second. -/
def markedOptions : Application :=
  ⟨"http://h/d", [], [], [], [],
    [.inline (withOptions "first" ["a|b"]), .inline (withOptions "second" ["a", "b"])], [], []⟩

theorem typeAt?_markedOptions :
    let w : Web := ⟨markedOptions, none, false⟩
    let a : Placed Representation :=
      ⟨withOptions "first" ["a|b"], ⟨"http://h/d", [.representation 0]⟩⟩
    let b : Placed Representation :=
      ⟨withOptions "second" ["a", "b"], ⟨"http://h/d", [.representation 1]⟩⟩
    ∃ r table t fs gs, Gives (resolveWith w.loading w.strict 0 w.app) [] r [] ∧
      Gives (unify r {}) [] table t ∧ r.Visits a ∧ r.Visits b ∧
      r.fields a.value.params = .ok fs ∧ r.fields b.value.params = .ok gs ∧ ¬fs.Perm gs ∧
      Separates (hashedText fs) (hashedText gs) ∧
      (table.typeAt? a.place).isSome = true ∧ table.typeAt? a.place = table.typeAt? b.place := by
  intro w a b
  let r : Resolution := ⟨markedOptions, [], [("http://h/d", markedOptions)]⟩
  have hr : Gives (resolveWith w.loading w.strict 0 w.app) [] r [] := by rfl
  obtain ⟨table, t, hu⟩ := exists_gives (x := unify r {}) (s := []) (by decide +kernel)
  have ha : r.Visits a := Or.inl ⟨0, .inline a.value, by decide, rfl⟩
  have hb : r.Visits b := Or.inl ⟨1, .inline b.value, by decide, rfl⟩
  obtain ⟨fs, gs, hfs, hgs, hsome, -, -, hiff⟩ :=
    typeAt?_eq_iff_keys_perm hr hu ha hb (List.cons_ne_nil _ _) (List.cons_ne_nil _ _)
  have hfs' : r.fields a.value.params = .ok [⟨"p", "string", ["a|b"], [], false, false⟩] := by rfl
  have hgs' : r.fields b.value.params = .ok [⟨"p", "string", ["a", "b"], [], false, false⟩] := by
    rfl
  obtain rfl := Except.ok.inj (hfs.symm.trans hfs')
  obtain rfl := Except.ok.inj (hgs.symm.trans hgs')
  have hkeys : [(⟨"p", "string", ["a|b"], [], false, false⟩ : Field)].map Field.key =
      [⟨"p", "string", ["a", "b"], [], false, false⟩].map Field.key := by decide
  have hsha : Separates (hashedText [⟨"p", "string", ["a|b"], [], false, false⟩])
      (hashedText [⟨"p", "string", ["a", "b"], [], false, false⟩]) := fun _ => by
    rw [hashedText, hkeys, hashedText]
  refine ⟨r, table, t, _, _, hr, hu, ha, hb, hfs, hgs, ?_, hsha, hsome, ?_⟩
  · rw [List.singleton_perm_singleton]
    decide
  · exact (hiff hsha).1.2 (by rw [hkeys])

end Wadl
