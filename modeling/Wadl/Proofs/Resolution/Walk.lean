import Mathlib.Data.List.Lex
import Wadl.Proofs.Resolution.Containers

/-!
# Two walks through the resources

The resources of a description are listed by means of a stack, and they are entered one inside the
other as containers. Both give the same resources in the same order (`Application.walks_agree`):
each resource before those below it, and those below it in their order. The positions of the
containers ascend, each path down from a group leads to one of them, and the chain of a container is
the path to it.
-/

namespace Wadl

/-! ## The stack -/

/-- A stack holds the resources that are still to be listed, the next one last. -/
theorem unstack_eq (stack : List Resource) : unstack stack = flattenList stack.reverse := by
  fun_induction unstack stack with
  | case1 => simp [flattenList]
  | case2 stack h r ih =>
    have hstack : stack.reverse = r :: stack.dropLast.reverse := by
      conv => lhs; rw [← List.dropLast_concat_getLast h]
      simp [r]
    rw [ih, hstack, List.reverse_append, List.reverse_reverse, flattenList_append, flattenList,
      Resource.flatten_eq, List.cons_append]

theorem Application.allResources_eq (app : Application) :
    app.allResources = flattenList (app.resources.flatMap (·.resources)) := by
  have hgroup : (List.reverse ∘ fun group : ResourceGroup => group.resources.reverse) =
      (·.resources) :=
    funext fun _ => List.reverse_reverse _
  rw [allResources, unstack_eq, List.reverse_flatMap, List.reverse_reverse, hgroup]

/-! ## The resources of containers -/

mutual

/-- The walk over containers meets the resources in the order of the recursive walk. -/
theorem holders_containers (above : List Station) (inherited : List String) (place : Place) :
    ∀ r : Resource, (r.containers above inherited place).map (·.here.holder) =
      r.flatten.map .resource
  | ⟨id, path, types, queryType, params, methods, resources, docs⟩ => by
    rw [Resource.containers, Resource.flatten, List.map_cons, List.map_cons,
      holders_containersBelow]

/-- So it does below a resource. -/
theorem holders_containersBelow (above : List Station) (inherited : List String)
    (place : Place) (n : Nat) : ∀ rs : List Resource,
      (containersBelow above inherited place n rs).map (·.here.holder) =
        (flattenList rs).map .resource
  | [] => by simp [containersBelow, flattenList]
  | r :: rs => by
    rw [containersBelow, flattenList, List.map_append, List.map_append, holders_containers,
      holders_containersBelow]

end

theorem flattenList_flatMap (groups : List ResourceGroup) :
    flattenList (groups.flatMap (·.resources)) =
      groups.flatMap fun group => flattenList group.resources := by
  induction groups with
  | nil => simp [flattenList]
  | cons group groups ih => rw [List.flatMap_cons, List.flatMap_cons, flattenList_append, ih]

/-- The containers of a description hold its resources, in the order in which the stack lists
them. -/
theorem Application.holders_resourceContainers (app : Application) :
    app.resourceContainers.map (·.here.holder) = app.allResources.map .resource := by
  rw [allResources_eq, resourceContainers, flattenList_flatMap, List.map_flatMap, List.map_flatMap]
  simp only [holders_containersBelow]
  conv_rhs => rw [← List.zipIdx_map_fst 0 app.resources, List.flatMap_map]

/-! ## Positions -/

/-- The number of a step among those of its kind. -/
def Step.number : Step → Nat
  | group n | resource n | resourceType n | representation n | param n | method n | response n => n
  | request => 0

/-- The numbers of the steps to a place. Of two places on the way down, the one that is met first
comes first. -/
def Place.position (p : Place) : List Nat := p.steps.map Step.number

theorem Place.position_child (p : Place) (s : Step) :
    (p.child s).position = p.position ++ [s.number] := by
  simp [position, child]

/-- What is within a place has a position that begins with that of the place. -/
theorem Place.Within.position {p outer : Place} (h : p.Within outer) :
    outer.position <+: p.position :=
  h.2.map Step.number

/-- What lies below an earlier child comes before what lies below a later one. -/
theorem Place.position_lt_of_within {p q place : Place} {k j : Nat} (hkj : k < j)
    (hp : p.Within (place.child (.resource k))) (hq : q.Within (place.child (.resource j))) :
    p.position < q.position := by
  obtain ⟨ps, hp⟩ := hp.position
  obtain ⟨qs, hq⟩ := hq.position
  rw [position_child] at hp hq
  rw [← hp, ← hq, List.append_assoc, List.append_assoc]
  exact List.append_left_lt (List.Lex.rel hkj)

/-- A place comes before what lies below its children. -/
theorem Place.position_lt_child {p place : Place} {s : Step} (hp : p.Within (place.child s)) :
    place.position < p.position := by
  obtain ⟨ps, hp⟩ := hp.position
  rw [position_child, List.append_assoc] at hp
  rw [← hp]
  have hlt : place.position ++ [] < place.position ++ s.number :: ps :=
    List.append_left_lt (List.nil_lt_cons s.number ps)
  rwa [List.append_nil] at hlt

mutual

/-- Containers come in the order of their positions. -/
theorem pairwise_containers (above : List Station) (inherited : List String) (place : Place) :
    ∀ r : Resource, ((r.containers above inherited place).map (·.place.position)).Pairwise (· < ·)
  | ⟨id, path, types, queryType, params, methods, resources, docs⟩ => by
    rw [Resource.containers, List.map_cons, List.pairwise_cons]
    refine ⟨fun position hposition => ?_, pairwise_containersBelow _ _ place 0 resources⟩
    obtain ⟨c, hc, rfl⟩ := List.mem_map.1 hposition
    obtain ⟨k, -, hwithin⟩ := within_containersBelow _ _ place 0 resources c hc
    exact Place.position_lt_child hwithin

/-- So do those below a resource. -/
theorem pairwise_containersBelow (above : List Station) (inherited : List String)
    (place : Place) (n : Nat) : ∀ rs : List Resource,
      ((containersBelow above inherited place n rs).map (·.place.position)).Pairwise (· < ·)
  | [] => by simp [containersBelow]
  | r :: rs => by
    rw [containersBelow, List.map_append, List.pairwise_append]
    refine ⟨pairwise_containers _ _ _ r, pairwise_containersBelow _ _ place (n + 1) rs, ?_⟩
    intro p hp q hq
    obtain ⟨c, hc, rfl⟩ := List.mem_map.1 hp
    obtain ⟨d, hd, rfl⟩ := List.mem_map.1 hq
    obtain ⟨k, hk, hwithin⟩ := within_containersBelow _ _ place (n + 1) rs d hd
    exact Place.position_lt_of_within (by omega) (within_containers _ _ _ r c hc) hwithin

end

/-- The positions of the containers ascend. -/
theorem Application.pairwise_resourceContainers (app : Application) :
    (app.resourceContainers.map (·.place.position)).Pairwise (· < ·) := by
  rw [resourceContainers, List.map_flatMap, List.pairwise_flatMap]
  refine ⟨fun x _ => pairwise_containersBelow _ _ _ 0 _, ?_⟩
  have hnumbers : (app.resources.zipIdx.map (·.2)).Pairwise (· < ·) := by
    rw [List.zipIdx_map_snd]
    exact List.pairwise_lt_range'
  refine (List.pairwise_map.1 hnumbers).imp fun {x y} hxy p hp q hq => ?_
  obtain ⟨c, hc, rfl⟩ := List.mem_map.1 hp
  obtain ⟨d, hd, rfl⟩ := List.mem_map.1 hq
  obtain ⟨k, -, hwithin⟩ := within_containersBelow [] [] _ 0 x.1.resources c hc
  obtain ⟨j, -, hwithin'⟩ := within_containersBelow [] [] _ 0 y.1.resources d hd
  obtain ⟨ps, hps⟩ := hwithin.of_child.position
  obtain ⟨qs, hqs⟩ := hwithin'.of_child.position
  rw [← hps, ← hqs]
  exact List.Lex.rel hxy

/-! ## Paths -/

/-- Steps that lead from a group through resources, the outermost first, to the resources below the
last of them. -/
inductive Application.Path (app : Application) :
    List Step → List Resource → List Resource → Prop where
  | group {n : Nat} {group : ResourceGroup} (stands : app.resources[n]? = some group) :
      Path app [.group n] [] group.resources
  | enter {steps : List Step} {chain below : List Resource} {k : Nat} {r : Resource}
      (path : Path app steps chain below) (child : below[k]? = some r) :
      Path app (steps ++ [.resource k]) (chain ++ [r]) r.resources

/-- The resources among some stations, the outermost first. -/
def chainOf (stations : List Station) : List Resource :=
  (stations.filterMap (·.holder.resource?)).reverse

theorem chainOf_cons (r : Resource) (place : Place) (segments : List String)
    (above : List Station) :
    chainOf (⟨.resource r, place, segments⟩ :: above) = chainOf above ++ [r] := by
  simp [chainOf, Holder.resource?]

/-- The chain of a container is the path to it, and its resource is the last on it. -/
def Container.OnPath (app : Application) (c : Container) : Prop :=
  (∃ below, app.Path c.place.steps c.chain below) ∧
    c.chain.getLast?.map .resource = some c.here.holder

mutual

/-- Each container carries the chain of resources that leads to it. -/
theorem onPath_containers {app : Application} (above : List Station)
    (inherited : List String) (place : Place) :
    ∀ r : Resource, app.Path place.steps (chainOf above ++ [r]) r.resources →
      ∀ c ∈ r.containers above inherited place, c.OnPath app
  | ⟨id, path, types, queryType, params, methods, resources, docs⟩, h, c, hc => by
    rw [Resource.containers] at hc
    rcases List.mem_cons.1 hc with rfl | hc
    · unfold Container.OnPath
      simp only [Container.place]
      rw [Container.chain, ← chainOf, chainOf_cons]
      exact ⟨⟨_, h⟩, by simp⟩
    · rw [← chainOf_cons] at h
      exact onPath_containersBelow _ _ place 0 resources h (fun k => by rw [Nat.zero_add]) c hc

/-- So does each below a resource. -/
theorem onPath_containersBelow {app : Application} {below : List Resource} (above : List Station)
    (inherited : List String) (place : Place) (n : Nat) : ∀ rs : List Resource,
      app.Path place.steps (chainOf above) below → (∀ k, below[n + k]? = rs[k]?) →
        ∀ c ∈ containersBelow above inherited place n rs, c.OnPath app
  | [], _, _, c, hc => by simp [containersBelow] at hc
  | r :: rs, h, hrs, c, hc => by
    rw [containersBelow] at hc
    rcases List.mem_append.1 hc with hc | hc
    · exact onPath_containers above inherited _ r (h.enter (by simpa using hrs 0)) c hc
    · refine onPath_containersBelow above inherited place (n + 1) rs h (fun k => ?_) c hc
      rw [Nat.add_assoc, Nat.add_comm 1 k, hrs, List.getElem?_cons_succ]

end

/-- So does each of a description. -/
theorem Application.onPath_resourceContainers (app : Application) :
    ∀ c ∈ app.resourceContainers, c.OnPath app := by
  intro c hc
  obtain ⟨⟨group, n⟩, hmem, hc⟩ := List.mem_flatMap.1 hc
  have hgroup := getElem?_of_mem_zipIdx hmem
  exact onPath_containersBelow _ _ _ 0 _ (.group hgroup) (fun k => by rw [Nat.zero_add]) c hc

/-! ## All paths -/

/-- The containers of a child are among those below. -/
theorem mem_containersBelow {above : List Station} {inherited : List String}
    {place : Place} {r : Resource} {c : Container} :
    ∀ {rs : List Resource} {n k : Nat}, rs[k]? = some r →
      c ∈ r.containers above inherited (place.child (.resource (n + k))) →
      c ∈ containersBelow above inherited place n rs
  | [], _, _, h, _ => by simp at h
  | r' :: rs, n, 0, h, hc => by
    obtain rfl : r' = r := by simpa using h
    rw [containersBelow]
    exact List.mem_append_left _ hc
  | r' :: rs, n, k + 1, h, hc => by
    rw [containersBelow]
    refine List.mem_append_right _ (mem_containersBelow (n := n + 1) (by simpa using h) ?_)
    rwa [Nat.add_right_comm, Nat.add_assoc]

theorem Resource.exists_containers_eq (r : Resource) (above : List Station)
    (inherited : List String) (place : Place) :
    ∃ segments, r.containers above inherited place = ⟨⟨.resource r, place, segments⟩, above⟩ ::
      containersBelow (⟨.resource r, place, segments⟩ :: above) segments place 0 r.resources :=
  ⟨_, r.containers_eq above inherited place⟩

/-- Where a path ends, the resources below are entered as containers. -/
theorem Application.Path.entered {app : Application} {steps : List Step}
    {chain below : List Resource} (h : app.Path steps chain below) : ∃ above inherited,
      ∀ c ∈ containersBelow above inherited ⟨app.baseUri, steps⟩ 0 below,
        c ∈ app.resourceContainers := by
  induction h with
  | @group n group stands =>
    exact ⟨[], [],
      fun c hc => List.mem_flatMap.2 ⟨(group, n), List.mk_mem_zipIdx_iff_getElem?.2 stands, hc⟩⟩
  | @enter steps chain below k r path child ih =>
    obtain ⟨above, inherited, hbelow⟩ := ih
    let place := (⟨app.baseUri, steps⟩ : Place).child (.resource k)
    obtain ⟨segments, hcontainers⟩ := r.exists_containers_eq above inherited place
    refine ⟨⟨.resource r, place, segments⟩ :: above, segments,
      fun c hc => hbelow c (mem_containersBelow child ?_)⟩
    rw [Nat.zero_add, hcontainers]
    exact List.mem_cons_of_mem _ hc

/-- Each path leads to a container. -/
theorem Application.Path.container {app : Application} {steps : List Step}
    {chain below : List Resource} (h : app.Path steps chain below) (hchain : chain ≠ []) :
    ∃ c ∈ app.resourceContainers, c.place = ⟨app.baseUri, steps⟩ := by
  cases h with
  | group => exact absurd rfl hchain
  | @enter steps chain below k r path child =>
    obtain ⟨above, inherited, hbelow⟩ := path.entered
    let place := (⟨app.baseUri, steps⟩ : Place).child (.resource k)
    obtain ⟨segments, hcontainers⟩ := r.exists_containers_eq above inherited place
    refine ⟨⟨⟨.resource r, place, segments⟩, above⟩, hbelow _ (mem_containersBelow child ?_), rfl⟩
    rw [Nat.zero_add, hcontainers]
    exact List.mem_cons_self

/-- The walk with a stack lists the resources of all groups, each before those below it, and the
containers hold the same resources in the same order. Their positions ascend, so that each is met
once and in the order of the document; the chain of each is the path that leads to it, which ends
with its resource; and every path leads to one of them. -/
theorem Application.walks_agree (app : Application) :
    app.allResources = flattenList (app.resources.flatMap (·.resources)) ∧
    app.resourceContainers.map (·.here.holder) = app.allResources.map .resource ∧
    (app.resourceContainers.map (·.place.position)).Pairwise (· < ·) ∧
    (∀ c ∈ app.resourceContainers, (∃ below, app.Path c.place.steps c.chain below) ∧
      c.chain.getLast?.map .resource = some c.here.holder) ∧
    ∀ steps chain below, app.Path steps chain below → chain ≠ [] →
      ∃ c ∈ app.resourceContainers, c.place = ⟨app.baseUri, steps⟩ :=
  ⟨app.allResources_eq, app.holders_resourceContainers, app.pairwise_resourceContainers,
    app.onPath_resourceContainers, fun _ _ _ path => path.container⟩

/-- A resource with a path, and resources below it. -/
def tree (path : String) (below : List Resource) : Resource :=
  ⟨none, some path, [], formMediaType, [], [], below, []⟩

/-- A description of two groups, with resources on three levels. -/
def forest : Application :=
  ⟨"http://h/d", [], [], [⟨none, [tree "a" []]⟩,
    ⟨none, [tree "b" [tree "c" [tree "d" []], tree "e" [tree "f" []]], tree "g" []]⟩], [],
    [], [], []⟩

theorem walks_agree_forest :
    let e := tree "e" [tree "f" []]
    let b := tree "b" [tree "c" [tree "d" []], e]
    let steps : List Step := [.group 1, .resource 0, .resource 1]
    forest.Path steps [b, e] e.resources ∧ [b, e] ≠ [] ∧
      (∃ c ∈ forest.resourceContainers, c.place = ⟨"http://h/d", steps⟩) ∧
      forest.allResources.map (·.path) =
        [some "a", some "b", some "c", some "d", some "e", some "f", some "g"] := by
  intro e b steps
  obtain ⟨hall, -, -, -, hpath⟩ := Application.walks_agree forest
  have hgroup : forest.resources[1]? = some ⟨none, [b, tree "g" []]⟩ := rfl
  have hsteps : forest.Path steps [b, e] e.resources :=
    ((Application.Path.group hgroup).enter (k := 0) rfl).enter (k := 1) rfl
  refine ⟨hsteps, by simp, hpath _ _ _ hsteps (by simp), ?_⟩
  rw [hall]
  decide

end Wadl
