import Mathlib.Data.List.Nodup
import Wadl.Proofs.Resolution.Places

/-!
# Containers stand apart

No two containers of a resolved description stand at one place (`Web.nodup_places`): those below a
place stand below different children of it, and resource types and groups of resources stand at
different places. What a reference to a resource type names is one of the containers
(`Web.container_of_resourceType`).
-/

namespace Wadl

/-! ## Places below a place -/

/-- A place is another one or lies below it. -/
def Place.Within (p outer : Place) : Prop := p.document = outer.document ∧ outer.steps <+: p.steps

namespace Place.Within

variable {p outer : Place} {s s' : Step}

theorem refl (p : Place) : p.Within p := ⟨rfl, List.prefix_rfl⟩

theorem of_child (h : p.Within (outer.child s)) : p.Within outer :=
  ⟨h.1, (List.prefix_append _ _).trans h.2⟩

/-- A place lies below one child only. -/
theorem child_unique (h : p.Within (outer.child s)) (h' : p.Within (outer.child s')) : s = s' := by
  have hsteps : outer.steps ++ [s] = outer.steps ++ [s'] :=
    (List.prefix_of_prefix_length_le h.2 h'.2 (by simp [Place.child])).eq_of_length
      (by simp [Place.child])
  simpa using hsteps

/-- No place is within one of its own children. -/
theorem not_child (p : Place) (s : Step) : ¬p.Within (p.child s) := by
  rintro ⟨-, h⟩
  have hlength := h.length_le
  simp only [Place.child, List.length_append, List.length_singleton] at hlength
  omega

end Place.Within

/-! ## Resources below a place -/

theorem Resource.containers_eq (r : Resource) (above : List Station)
    (inherited : List String) (place : Place) : r.containers above inherited place =
      let segments := if (r.id.getD "").isEmpty then inherited ++ r.segments else r.segments
      ⟨⟨.resource r, place, segments⟩, above⟩ ::
        containersBelow (⟨.resource r, place, segments⟩ :: above) segments place 0 r.resources := by
  cases r
  rw [Resource.containers]
  rfl

mutual

/-- The containers of a resource are within its place. -/
theorem within_containers (above : List Station) (inherited : List String) (place : Place) :
    ∀ (r : Resource), ∀ c ∈ r.containers above inherited place, c.place.Within place
  | ⟨id, path, types, queryType, params, methods, resources, docs⟩, c, hc => by
    rw [Resource.containers] at hc
    rcases List.mem_cons.1 hc with rfl | hc
    · exact .refl place
    · obtain ⟨k, -, hwithin⟩ := within_containersBelow _ _ place 0 resources c hc
      exact hwithin.of_child

/-- Those below are within the places of the children. -/
theorem within_containersBelow (above : List Station) (inherited : List String) (place : Place)
    (n : Nat) : ∀ (rs : List Resource), ∀ c ∈ containersBelow above inherited place n rs,
      ∃ k, n ≤ k ∧ c.place.Within (place.child (.resource k))
  | [], c, hc => by simp [containersBelow] at hc
  | r :: rs, c, hc => by
    rw [containersBelow] at hc
    rcases List.mem_append.1 hc with hc | hc
    · exact ⟨n, le_rfl, within_containers above inherited _ r c hc⟩
    · obtain ⟨k, hk, hwithin⟩ := within_containersBelow above inherited place (n + 1) rs c hc
      exact ⟨k, by omega, hwithin⟩

end

mutual

/-- No two containers share a place. -/
theorem nodup_containers (above : List Station) (inherited : List String) (place : Place) :
    ∀ r : Resource, ((r.containers above inherited place).map (·.place)).Nodup
  | ⟨id, path, types, queryType, params, methods, resources, docs⟩ => by
    rw [Resource.containers, List.map_cons, List.nodup_cons]
    refine ⟨fun hmem => ?_, nodup_containersBelow _ _ place 0 resources⟩
    obtain ⟨c, hc, hplace⟩ := List.mem_map.1 hmem
    obtain ⟨k, -, hwithin⟩ := within_containersBelow _ _ place 0 resources c hc
    rw [hplace] at hwithin
    exact Place.Within.not_child place _ hwithin

theorem nodup_containersBelow (above : List Station) (inherited : List String) (place : Place)
    (n : Nat) : ∀ rs : List Resource,
      ((containersBelow above inherited place n rs).map (·.place)).Nodup
  | [] => by simp [containersBelow]
  | r :: rs => by
    rw [containersBelow, List.map_append, List.nodup_append]
    refine ⟨nodup_containers above inherited _ r,
      nodup_containersBelow above inherited place (n + 1) rs, ?_⟩
    intro p hp q hq hpq
    obtain ⟨c, hc, rfl⟩ := List.mem_map.1 hp
    obtain ⟨d, hd, rfl⟩ := List.mem_map.1 hq
    obtain ⟨k, hk, hwithin⟩ := within_containersBelow above inherited place (n + 1) rs d hd
    rw [← hpq] at hwithin
    have hstep := Place.Within.child_unique (within_containers above inherited _ r c hc) hwithin
    simp only [Step.resource.injEq] at hstep
    omega

end

namespace ResourceType

/-- The containers of a resource type are within its place. -/
theorem within_containers (t : ResourceType) (place : Place) :
    ∀ c ∈ t.containers place, c.place.Within place := by
  intro c hc
  rw [ResourceType.containers] at hc
  rcases List.mem_cons.1 hc with rfl | hc
  · exact .refl place
  · obtain ⟨k, -, hwithin⟩ := within_containersBelow _ _ place 0 t.resources c hc
    exact hwithin.of_child

/-- Nor do any of those share a place. -/
theorem nodup_containers (t : ResourceType) (place : Place) :
    ((t.containers place).map (·.place)).Nodup := by
  rw [ResourceType.containers, List.map_cons, List.nodup_cons]
  refine ⟨fun hmem => ?_, nodup_containersBelow _ _ place 0 t.resources⟩
  obtain ⟨c, hc, hplace⟩ := List.mem_map.1 hmem
  obtain ⟨k, -, hwithin⟩ := within_containersBelow _ _ place 0 t.resources c hc
  rw [hplace] at hwithin
  exact Place.Within.not_child place _ hwithin

end ResourceType

/-! ## Resource types -/

section distinctPlaces

variable {α : Type} {p : Placed α}

/-- Each place is kept once. -/
theorem nodup_distinctPlaces : ∀ ps : List (Placed α), ((distinctPlaces ps).map (·.place)).Nodup
  | [] => List.nodup_nil
  | p :: ps => by
    rw [distinctPlaces, List.map_cons, List.nodup_cons]
    refine ⟨fun hmem => ?_, ((nodup_distinctPlaces ps).sublist (List.filter_sublist.map _))⟩
    obtain ⟨q, hq, hplace⟩ := List.mem_map.1 hmem
    simpa [hplace] using (List.mem_filter.1 hq).2

/-- No place gets lost. -/
theorem exists_mem_distinctPlaces : ∀ {ps : List (Placed α)}, p ∈ ps →
    ∃ q ∈ distinctPlaces ps, q.place = p.place
  | q :: ps, h => by
    rw [distinctPlaces]
    by_cases hplace : q.place = p.place
    · exact ⟨q, List.mem_cons_self, hplace⟩
    · rcases List.mem_cons.1 h with rfl | h
      · exact absurd rfl hplace
      · obtain ⟨x, hx, hxp⟩ := exists_mem_distinctPlaces h
        refine ⟨x, List.mem_cons_of_mem q (List.mem_filter.2 ⟨hx, ?_⟩), hxp⟩
        simp [hxp, Ne.symm hplace]

end distinctPlaces

namespace Part

/-- Only a description has resource types as children. -/
theorem child?_eq_resourceType {p : Part} {s : Step} {t : ResourceType}
    (h : p.child? s = some (.resourceType t)) :
    ∃ d n, p = .application d ∧ s = .resourceType n ∧ d.resourceTypes[n]? = some t := by
  unfold child? at h
  split at h <;> simp_all

theorem steps_of_application {d d' : Application} {steps : List Step}
    (h : (Part.application d).at? steps = some (.application d')) : steps = [] := by
  rcases List.eq_nil_or_concat steps with rfl | ⟨init, s, rfl⟩
  · rfl
  · rw [List.concat_eq_append, at?_append_singleton] at h
    obtain ⟨p, -, hchild⟩ := Option.bind_eq_some_iff.1 h
    exact absurd hchild child?_ne_application

/-- Resource types stand in the description itself. -/
theorem steps_of_resourceType {d : Application} {steps : List Step} {t : ResourceType}
    (h : (Part.application d).at? steps = some (.resourceType t)) :
    ∃ n, steps = [.resourceType n] ∧ d.resourceTypes[n]? = some t := by
  rcases List.eq_nil_or_concat steps with rfl | ⟨init, s, rfl⟩
  · cases h
  · rw [List.concat_eq_append, at?_append_singleton] at h
    obtain ⟨p, hp, hchild⟩ := Option.bind_eq_some_iff.1 h
    obtain ⟨d', n, rfl, rfl, hget⟩ := child?_eq_resourceType hchild
    obtain rfl := steps_of_application hp
    obtain rfl : d = d' := by simpa [at?] using hp
    exact ⟨n, by simp, hget⟩

end Part

namespace Web

variable {w : Web} {r : Resolution}

/-- A resource type stands at the top of its document. -/
theorem place_of_mem_resourceTypes (hr : w.Resolves r) {t : Placed ResourceType}
    (ht : t ∈ r.resourceTypes) : ∃ uri n, t.place = ⟨uri, [.resourceType n]⟩ := by
  obtain ⟨d, -, hat⟩ := stands_resourceTypes hr t ht
  obtain ⟨n, hsteps, -⟩ := Part.steps_of_resourceType hat
  exact ⟨t.place.document, n, by rw [← hsteps]⟩

/-- Containers of types are within the places of these types. -/
theorem within_typeContainers {c : Container} (hc : c ∈ r.typeContainers) :
    ∃ t ∈ r.resourceTypes, c.place.Within t.place := by
  obtain ⟨t, ht, hc⟩ := List.mem_flatMap.1 hc
  exact ⟨t, ht, t.value.within_containers t.place c hc⟩

/-- Containers of resources are within a group of their document. -/
theorem within_resourceContainers {app : Application} {c : Container}
    (hc : c ∈ app.resourceContainers) : ∃ n, c.place.Within ⟨app.baseUri, [.group n]⟩ := by
  obtain ⟨⟨group, n⟩, -, hc⟩ := List.mem_flatMap.1 hc
  obtain ⟨k, -, hwithin⟩ :=
    within_containersBelow [] [] ⟨app.baseUri, [.group n]⟩ 0 group.resources c hc
  exact ⟨n, hwithin.of_child⟩

/-- What lies below a place of one step, lies below one such place only. -/
theorem eq_of_within {p : Place} {uri uri' : String} {s s' : Step} (h : p.Within ⟨uri, [s]⟩)
    (h' : p.Within ⟨uri', [s']⟩) : uri = uri' ∧ s = s' :=
  have hinside : p.Within ((⟨uri, []⟩ : Place).child s) := h
  ⟨h.1.symm.trans h'.1, hinside.child_unique ⟨h.1, h'.2⟩⟩

/-- In a resolution, containers of types have different places; so do those of resources. -/
theorem nodup_typeContainers (hr : w.Resolves r) : (r.typeContainers.map (·.place)).Nodup := by
  rw [Resolution.typeContainers, List.map_flatMap, List.nodup_flatMap]
  refine ⟨fun t _ => t.value.nodup_containers t.place, ?_⟩
  refine (List.pairwise_map.1 (nodup_distinctPlaces _)).imp_of_mem fun {t t'} ht ht' hne => ?_
  intro p hp hp'
  obtain ⟨c, hc, rfl⟩ := List.mem_map.1 hp
  obtain ⟨c', hc', hplace⟩ := List.mem_map.1 hp'
  have hwithin := t.value.within_containers t.place c hc
  have hwithin' := t'.value.within_containers t'.place c' hc'
  obtain ⟨uri, n, htplace⟩ := place_of_mem_resourceTypes hr ht
  obtain ⟨uri', n', htplace'⟩ := place_of_mem_resourceTypes hr ht'
  rw [htplace] at hwithin hne
  rw [hplace, htplace'] at hwithin'
  obtain ⟨rfl, hstep⟩ := eq_of_within hwithin hwithin'
  exact hne (by rw [htplace', hstep])

theorem nodup_resourceContainers (app : Application) :
    (app.resourceContainers.map (·.place)).Nodup := by
  rw [Application.resourceContainers, List.map_flatMap, List.nodup_flatMap]
  refine ⟨fun x _ => nodup_containersBelow _ _ _ 0 _, ?_⟩
  have hnodup : (app.resources.zipIdx.map (·.2)).Nodup := by
    rw [List.zipIdx_map_snd]
    exact List.nodup_range'
  refine (List.pairwise_map.1 hnodup).imp fun {x y} hne => ?_
  intro p hp hp'
  obtain ⟨c, hc, rfl⟩ := List.mem_map.1 hp
  obtain ⟨d, hd, hplace⟩ := List.mem_map.1 hp'
  obtain ⟨k, -, hwithin⟩ := within_containersBelow [] [] _ 0 x.1.resources c hc
  obtain ⟨k', -, hwithin'⟩ := within_containersBelow [] [] _ 0 y.1.resources d hd
  rw [hplace] at hwithin'
  exact hne (by simpa using (eq_of_within hwithin.of_child hwithin'.of_child).2)

/-- No two containers stand at one place. -/
theorem nodup_places (hr : w.Resolves r) : (r.containers.map (·.place)).Nodup := by
  rw [Resolution.containers, List.map_append, List.nodup_append]
  refine ⟨nodup_typeContainers hr, nodup_resourceContainers r.app, ?_⟩
  intro p hp q hq hpq
  obtain ⟨c, hc, rfl⟩ := List.mem_map.1 hp
  obtain ⟨d, hd, rfl⟩ := List.mem_map.1 hq
  obtain ⟨t, ht, hwithin⟩ := within_typeContainers hc
  obtain ⟨uri, n, hplace⟩ := place_of_mem_resourceTypes hr ht
  obtain ⟨k, hwithin'⟩ := within_resourceContainers hd
  rw [hplace, hpq] at hwithin
  exact absurd (eq_of_within hwithin hwithin').2 (by simp)

/-- What a reference to a resource type names is among the resource types. -/
theorem mem_resourceTypes (hr : w.Resolves r) {ref : Reference} {t : Placed ResourceType}
    (h : r.resourceType ref = .ok t) : t ∈ r.resourceTypes := by
  obtain ⟨target, htarget, h⟩ := Result.bind_ok.1 h
  have hlookup := deref_ok.1 htarget
  have hstands := hr.stands hlookup
  split at h
  · rename_i type hdef
    obtain rfl := Result.pure_ok.1 h
    rw [hdef] at hstands
    obtain ⟨q, hq, hplace⟩ : ∃ q ∈ r.resourceTypes, q.place = target.place := by
      refine exists_mem_distinctPlaces (p := ⟨type, target.place⟩) (List.mem_append.2 ?_)
      by_cases hbase : target.place.document = r.app.baseUri
      · left
        obtain ⟨d, hd, hat⟩ := hstands
        rw [IsDocument, hbase, hr.app_eq, if_pos rfl] at hd
        obtain ⟨n, hsteps, hget⟩ := Part.steps_of_resourceType hat
        refine List.mem_map.2 ⟨(type, n), ?_, ?_⟩
        · rw [hr.app_eq, List.mk_mem_zipIdx_iff_getElem?, ← hd]
          exact hget
        · show (⟨type, ⟨r.app.baseUri, [.resourceType n]⟩⟩ : Placed ResourceType) =
            ⟨type, target.place⟩
          rw [← hbase, ← hsteps]
      · right
        obtain ⟨before, after, htargets, -⟩ := List.lookup_eq_some_iff.1 hlookup
        refine List.mem_filterMap.2 ⟨(ref.href, target), by simp [htargets], ?_⟩
        simp only [hdef, if_neg hbase]
    have hqstands := stands_resourceTypes hr q hq
    rw [hplace] at hqstands
    have hvalue := Part.resourceType.inj (stands_unique hqstands hstands)
    obtain ⟨value, place⟩ := q
    obtain rfl : value = type := hvalue
    obtain rfl : place = target.place := hplace
    exact hq
  · cases h

/-- What a reference to a resource type names is a container. -/
theorem container_of_resourceType (hr : w.Resolves r) {ref : Reference} {t : Placed ResourceType}
    (h : r.resourceType ref = .ok t) :
    ∃ c ∈ r.containers, c.place = t.place ∧ c.here.holder = .type t.value := by
  refine ⟨⟨⟨.type t.value, t.place, [t.value.id]⟩, []⟩, ?_, rfl, rfl⟩
  refine List.mem_append_left _ (List.mem_flatMap.2 ⟨t, mem_resourceTypes hr h, ?_⟩)
  rw [ResourceType.containers]
  exact List.mem_cons_self

end Web

end Wadl
