import Wadl.Proofs.Client.Unification

/-!
# What a group notes

A group of representations notes the identifiers of its members and where they are used: the names
of the sites, the methods and the containers. Each visit keeps what it should note (`Noted`), so
that at the end these are the identifiers, sites, methods and containers of all that is visited and
has the signature of the group (`noted_groupsOf`, `NotedAll.exists_member_iff`), whatever the order
of the visits.
-/

namespace Wadl

open Unify

/-- A representation with params has a signature. -/
def Resolution.Signs (r : Resolution) (signature : String) (rep : Placed Representation) : Prop :=
  rep.value.params ≠ [] ∧ r.signature rep.value.params = .ok signature

/-- A list holds something of each usage of the representations with a signature, and nothing
else. -/
def Collects {α : Type} (r : Resolution) (used : List Usage) (signature : String) (f : Usage → α)
    (xs : List α) : Prop :=
  ∀ x, x ∈ xs ↔ ∃ u ∈ used, r.Signs signature u.representation ∧ f u = x

namespace Collects

variable {α : Type} {r : Resolution} {used : List Usage} {signature : String}
    {f : Usage → α} {xs xs' : List α}
  {u : Usage}

theorem skip (h : Collects r used signature f xs) (hu : ¬r.Signs signature u.representation) :
    Collects r (used ++ [u]) signature f xs := by
  intro x
  rw [h]
  constructor
  · rintro ⟨v, hv, hsigns⟩
    exact ⟨v, List.mem_append_left _ hv, hsigns⟩
  · rintro ⟨v, hv, hsigns, hx⟩
    rcases List.mem_append.1 hv with hv | hv
    · exact ⟨v, hv, hsigns, hx⟩
    · obtain rfl := List.mem_singleton.1 hv
      exact absurd hsigns hu

theorem snoc (h : Collects r used signature f xs) (hu : r.Signs signature u.representation)
    (hxs : ∀ x, x ∈ xs' ↔ x ∈ xs ∨ x = f u) : Collects r (used ++ [u]) signature f xs' := by
  intro x
  rw [hxs, h]
  constructor
  · rintro (⟨v, hv, hsigns⟩ | rfl)
    · exact ⟨v, List.mem_append_left _ hv, hsigns⟩
    · exact ⟨u, List.mem_append_right _ (List.mem_singleton_self u), hu, rfl⟩
  · rintro ⟨v, hv, hsigns, hx⟩
    rcases List.mem_append.1 hv with hv | hv
    · exact .inl ⟨v, hv, hsigns, hx⟩
    · obtain rfl := List.mem_singleton.1 hv
      exact .inr hx.symm

/-- Before any usage of a signature there is nothing to hold. -/
theorem nil (h : ∀ u ∈ used, ¬r.Signs signature u.representation) :
    Collects r used signature f [] := by
  intro x
  simp only [List.not_mem_nil, false_iff]
  rintro ⟨u, hu, hsigns, -⟩
  exact h u hu hsigns

end Collects

/-- A group has members with params, and notes the usages of all representations with its
signature. -/
structure Noted (r : Resolution) (used : List Usage) (g : Group) : Prop where
  members : g.members ≠ []
  filled : ∀ m ∈ g.members, m.value.params ≠ []
  sites : Collects r used g.signature Usage.site g.sites
  methods : Collects r used g.signature (·.method.place) g.methods
  methods_nodup : g.methods.Nodup
  containers : Collects r used g.signature (·.container.place) (g.containers.map (·.place))
  containers_nodup : (g.containers.map (·.place)).Nodup
  stations : ∀ s ∈ g.containers, ∃ u ∈ used, r.Signs g.signature u.representation ∧
    u.container.here = s

namespace Noted

variable {r : Resolution} {used : List Usage} {g : Group} {u : Usage}

theorem new {signature : String} {rep : Placed Representation} (hfilled : rep.value.params ≠ [])
    (hfresh : ∀ u ∈ used, ¬r.Signs signature u.representation) :
    Noted r used ⟨signature, [rep], [], [], []⟩ where
  members := List.cons_ne_nil _ _
  filled m hm := by rwa [List.mem_singleton.1 hm]
  sites := .nil hfresh
  methods := .nil hfresh
  methods_nodup := List.nodup_nil
  containers := .nil hfresh
  containers_nodup := List.nodup_nil
  stations _ hs := by cases hs

theorem join (h : Noted r used g) {rep : Placed Representation} (hfilled : rep.value.params ≠ []) :
    Noted r used { g with members := g.members ++ [rep] } :=
  { h with
    members := by simp
    filled := List.forall_mem_append.2 ⟨h.filled, List.forall_mem_singleton.2 hfilled⟩ }

theorem skip (h : Noted r used g) (hu : ¬r.Signs g.signature u.representation) :
    Noted r (used ++ [u]) g where
  members := h.members
  filled := h.filled
  sites := h.sites.skip hu
  methods := h.methods.skip hu
  methods_nodup := h.methods_nodup
  containers := h.containers.skip hu
  containers_nodup := h.containers_nodup
  stations s hs := by
    obtain ⟨v, hv, hsigns⟩ := h.stations s hs
    exact ⟨v, List.mem_append_left _ hv, hsigns⟩

theorem use (h : Noted r used g) (hu : r.Signs g.signature u.representation) :
    Noted r (used ++ [u]) (g.use u) := by
  have hkept : ∀ s ∈ g.containers, ∃ v ∈ used ++ [u], r.Signs g.signature v.representation ∧
      v.container.here = s := by
    intro s hs
    obtain ⟨v, hv, hsigns⟩ := h.stations s hs
    exact ⟨v, List.mem_append_left _ hv, hsigns⟩
  have hsites : Collects r (used ++ [u]) g.signature Usage.site (g.sites ++ [u.site]) :=
    h.sites.snoc hu fun x => by rw [List.mem_append, List.mem_singleton]
  unfold Group.use
  refine ⟨h.members, h.filled, hsites, ?_, ?_, ?_, ?_, ?_⟩
  all_goals dsimp only
  · -- the methods
    refine h.methods.snoc hu fun x => ?_
    split
    · rename_i hold
      rw [List.contains_iff_mem] at hold
      exact ⟨.inl, fun hx => hx.elim id fun hx => hx ▸ hold⟩
    · rw [List.mem_append, List.mem_singleton]
  · split
    · exact h.methods_nodup
    · rename_i hnew
      rw [List.contains_iff_mem] at hnew
      rw [← List.concat_eq_append]
      exact h.methods_nodup.concat hnew
  · -- the containers
    refine h.containers.snoc hu fun x => ?_
    split
    · rename_i hold
      have hmem : u.container.place ∈ g.containers.map (·.place) := by simpa using hold
      exact ⟨.inl, fun hx => hx.elim id fun hx => hx ▸ hmem⟩
    · rw [List.map_append, List.mem_append, List.map_singleton, List.mem_singleton]
      rfl
  · split
    · exact h.containers_nodup
    · rename_i hnew
      have hplace : u.container.place ∉ g.containers.map (·.place) := by simpa using hnew
      rw [List.map_append, List.map_singleton, ← List.concat_eq_append]
      exact h.containers_nodup.concat hplace
  · split
    · exact hkept
    · refine List.forall_mem_append.2 ⟨hkept, List.forall_mem_singleton.2 ?_⟩
      exact ⟨u, List.mem_append_right _ (List.mem_singleton_self u), hu, rfl⟩

end Noted

/-! ## All groups -/

/-- Groups of what was visited, each with what it notes of the usages so far. -/
structure NotedAll (r : Resolution) (visited : List (Placed Representation)) (used : List Usage)
    (groups : Groups) : Prop where
  visits : ∀ m ∈ visited, r.Visits m
  representations : ∀ u ∈ used, u.representation ∈ visited
  grouped : Grouped r visited groups
  noted : ∀ g ∈ groups, Noted r used g

namespace NotedAll

variable {w : Web} {r : Resolution} {visited : List (Placed Representation)} {used : List Usage}
  {groups groups' : Groups} {rep : Placed Representation}

theorem start (r : Resolution) : NotedAll r [] [] [] where
  visits := List.forall_mem_nil _
  representations := List.forall_mem_nil _
  grouped := .nil r
  noted := List.forall_mem_nil _

/-- A representation that is visited is in the group that has its signature. -/
theorem exists_member (h : NotedAll r visited used groups) (hr : w.Resolves r) {signature : String}
    (hrep : rep ∈ visited) (hsigns : r.Signs signature rep) :
    ∃ g ∈ groups, g.signature = signature ∧ ∃ m ∈ g.members, m.value = rep.value := by
  obtain ⟨g, hg, m, hm, hplace⟩ := h.grouped.covered rep hrep hsigns.1
  obtain ⟨hmem, hsigned⟩ := h.grouped.signed g hg m hm
  have hvalue := visits_place hr (h.visits m hmem) (h.visits rep hrep) hplace
  rw [hvalue, hsigns.2] at hsigned
  exact ⟨g, hg, (Except.ok.inj hsigned).symm, m, hm, hvalue⟩

/-- A visit gives the signature of a representation with params, and leaves what is noted of
usages. -/
theorem add (h : NotedAll r visited used groups) (hr : w.Resolves r) (hrep : r.Visits rep)
    {signature : Option String} (hadd : Unify.add r groups rep = .ok (groups', signature)) :
    NotedAll r (visited ++ [rep]) used groups' ∧ ∀ s, r.Signs s rep ↔ signature = some s := by
  have hsigns : ∀ {s}, rep.value.params ≠ [] → r.signature rep.value.params = .ok s →
      ∀ t, r.Signs t rep ↔ some s = some t := by
    intro s hfilled hs t
    rw [Resolution.Signs, hs, Option.some.injEq, Except.ok.injEq]
    exact ⟨And.right, fun ht => ⟨hfilled, ht⟩⟩
  have hnoted : (∀ g ∈ groups', Noted r used g) ∧ ∀ s, r.Signs s rep ↔ signature = some s := by
    cases added_of_ok hadd with
    | skip empty => exact ⟨h.noted, fun s => ⟨fun hs => absurd empty hs.1, fun hs => by cases hs⟩⟩
    | @known g filled mem member =>
      obtain ⟨m, hm, hplace⟩ := member
      obtain ⟨hmem, hsigned⟩ := h.grouped.signed g mem m hm
      rw [visits_place hr (h.visits m hmem) hrep hplace] at hsigned
      exact ⟨h.noted, hsigns filled hsigned⟩
    | join filled signed any =>
      refine ⟨List.forall_mem_map.2 fun g hg => ?_, hsigns filled signed⟩
      split
      · exact (h.noted g hg).join filled
      · exact h.noted g hg
    | new filled signed fresh =>
      refine ⟨List.forall_mem_append.2
        ⟨h.noted, List.forall_mem_singleton.2 (.new filled fun u hu hs => ?_)⟩,
        hsigns filled signed⟩
      obtain ⟨g, hg, heq, -⟩ := h.exists_member hr (h.representations u hu) hs
      exact fresh g hg heq
  refine ⟨⟨?_, fun u hu => List.mem_append_left _ (h.representations u hu), h.grouped.add hadd,
    hnoted.1⟩, hnoted.2⟩
  exact List.forall_mem_append.2 ⟨h.visits, List.forall_mem_singleton.2 hrep⟩

theorem addUsage (h : NotedAll r visited used groups) (hr : w.Resolves r) {u : Usage}
    (hu : r.Visits u.representation) (hadd : Unify.addUsage r groups u = .ok groups') :
    NotedAll r (visited ++ [u.representation]) (used ++ [u]) groups' := by
  have hgrouped := h.grouped.addUsage hadd
  obtain ⟨⟨added, signature⟩, hadded, hadd⟩ := Result.bind_ok.1 hadd
  obtain ⟨hall, hsigns⟩ := h.add hr hu hadded
  refine ⟨hall.visits, List.forall_mem_append.2 ⟨hall.representations, ?_⟩, hgrouped, ?_⟩
  · exact List.forall_mem_singleton.2 (List.mem_append_right _ (List.mem_singleton_self _))
  · simp only at hadd
    split at hadd
    · rw [← Result.pure_ok.1 hadd]
      refine fun g hg => (hall.noted g hg).skip fun hs => ?_
      cases (hsigns _).1 hs
    · rename_i s
      rw [← Result.pure_ok.1 hadd]
      refine List.forall_mem_map.2 fun g hg => ?_
      split
      · rename_i hsignature
        exact (hall.noted g hg).use ((hsigns _).2 (by rw [hsignature]))
      · rename_i hsignature
        refine (hall.noted g hg).skip fun hs => hsignature ?_
        exact (Option.some.inj ((hsigns _).1 hs)).symm

/-- Of a signature there is at most one group. -/
theorem group_unique (h : NotedAll r visited used groups) {g g' : Group} (hg : g ∈ groups)
    (hg' : g' ∈ groups) (heq : g.signature = g'.signature) : g = g' :=
  List.inj_on_of_nodup_map h.grouped.nodup hg hg' heq

/-- The members of a group are what is visited and has its signature. -/
theorem exists_member_iff (h : NotedAll r visited used groups) (hr : w.Resolves r)
    {g : Group} (hg : g ∈ groups) {P : Representation → Prop} :
    (∃ m ∈ g.members, P m.value) ↔ ∃ a ∈ visited, r.Signs g.signature a ∧ P a.value := by
  constructor
  · rintro ⟨m, hm, hp⟩
    obtain ⟨hmem, hsigned⟩ := h.grouped.signed g hg m hm
    exact ⟨m, hmem, ⟨(h.noted g hg).filled m hm, hsigned⟩, hp⟩
  · rintro ⟨a, ha, hsigns, hp⟩
    obtain ⟨g', hg', heq, m, hm, hvalue⟩ := h.exists_member hr ha hsigns
    rw [h.group_unique hg hg' heq.symm]
    exact ⟨m, hm, hvalue ▸ hp⟩

end NotedAll

/-- At the end each group notes all that is visited and used. -/
theorem noted_groupsOf {w : Web} {r : Resolution} (hr : w.Resolves r) {groups : Groups}
    (h : groupsOf r = .ok groups) : ∃ reps us, r.topRepresentations = .ok reps ∧ r.usages = .ok us ∧
      NotedAll r (reps ++ us.map (·.representation)) us groups :=
  groupsOf_induct (P := NotedAll r) (.start r) (fun hrep h hadd => (h.add hr hrep hadd).1)
    (fun {us u _ _ _ _} hus hu h hadd => h.addUsage hr (Or.inr ⟨us, hus, u, hu, rfl⟩) hadd) h

end Wadl
