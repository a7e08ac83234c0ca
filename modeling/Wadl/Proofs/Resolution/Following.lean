import Wadl.Proofs.Ensures
import Wadl.Proofs.Resolution.Aliases
import Wadl.Proofs.Resolution.Containers

/-!
# What following gives

What is followed in a resolved description has its own references in it again, and the only reason
for which it cannot be followed is a circle of aliases. So a walk through the containers, their
methods and the representations of these never leaves the description
(`Resolution.containers_within`, `Settled.methods`, `Settled.foldUsages`).
-/

namespace Wadl

/-- Aliases name each other in a circle. -/
def ResolveError.IsCyclic (e : ResolveError) : Prop := ∃ chain, e = .cyclic chain

namespace Resolution

variable {r : Resolution} {α : Type} {wanted : Wanted α}

/-! ## Definitions -/

/-- A definition that aliases lead to is one that the table holds. -/
theorem EndsAt.lookup {href : String} {p : Placed α} (h : r.EndsAt wanted href p) :
    ∃ href t, r.targets.lookup href = some t ∧ wanted.concrete? t.definition = some p.value := by
  induction h with
  | here hlookup h => exact ⟨_, _, hlookup, h⟩
  | next _ _ ih => exact ih

/-- What holds of all definitions that the table holds, holds of what is followed. -/
theorem EndsOrCircles.ensures {β : Type} {ref : Reference} {part : Placed α → β}
    {x : Except ResolveError β} (h : r.EndsOrCircles wanted ref part x) {Q : β → Prop}
    (hQ : ∀ d p, d.uses ⊆ r.uses → wanted.concrete? d = some p.value → Q (part p)) :
    Result.Ensures x Q ResolveError.IsCyclic := by
  rcases h with ⟨p, rfl, hend⟩ | ⟨chain, rfl, -⟩
  · obtain ⟨href, t, hlookup, hconcrete⟩ := hend.lookup
    exact .pure (hQ _ p (uses_of_lookup hlookup) hconcrete)
  · exact .throw ⟨chain, rfl⟩

theorem Wanted.param_uses {d : Definition} {p : Param} (h : Wanted.param.concrete? d = some p) :
    d.uses = p.uses := by
  cases d with
  | param item =>
    cases item with
    | inline p' => rw [← Option.some.inj h]; rfl
    | ref ref id => cases h
  | _ => cases h

theorem Wanted.representation_uses {d : Definition} {rep : Representation}
    (h : Wanted.representation.concrete? d = some rep) : d.uses = rep.uses := by
  rw [← Definition.part_uses, Web.part_of_representation h]
  rfl

namespace Settled

theorem param (hr : r.Settled) {item : ParamItem} (h : item.uses ⊆ r.uses) :
    Result.Ensures (r.param item) (fun p => p.uses ⊆ r.uses) ResolveError.IsCyclic := by
  cases item with
  | inline p => exact .pure h
  | ref ref id =>
    exact (hr.accessible.param ref id (h (List.mem_singleton_self _))).ensures fun d p hd hp =>
      Wanted.param_uses hp ▸ hd

theorem params (hr : r.Settled) {items : List ParamItem}
    (h : items.flatMap ParamItem.uses ⊆ r.uses) :
    Result.Ensures (items.mapM r.param) (fun ps => ∀ p ∈ ps, p.uses ⊆ r.uses)
      ResolveError.IsCyclic :=
  .mapM fun _ hitem => hr.param (List.forall_mem_flatMap.1 h _ hitem)

theorem representation (hr : r.Settled) {place : Place} {item : RepresentationItem}
    (h : item.uses ⊆ r.uses) :
    Result.Ensures (r.representation place item) (fun rep => rep.value.uses ⊆ r.uses)
      ResolveError.IsCyclic := by
  cases item with
  | inline rep => exact .pure h
  | ref ref id =>
    exact (hr.accessible.representation ref id place (h (List.mem_singleton_self _))).ensures
        fun d p hd hp =>
      Wanted.representation_uses hp ▸ hd

theorem method (hr : r.Settled) {place : Place} {item : MethodItem} (h : item.uses ⊆ r.uses) :
    Result.Ensures (r.method place item) (fun m => m.value.uses ⊆ r.uses)
      ResolveError.IsCyclic := by
  cases item with
  | inline m => exact .pure h
  | ref ref =>
    obtain ⟨m, hm, hlookup⟩ := hr.accessible.method ref place (h (List.mem_singleton_self _))
    rw [hm]
    exact .pure (uses_of_lookup hlookup)

end Settled

/-! ## Containers -/

/-- The references in a resource or a resource type, and in all that stand around it, are in the
description. -/
def Within (r : Resolution) (stations : List Station) : Prop :=
  ∀ s ∈ stations, (Web.holderPart s.holder).uses ⊆ r.uses

theorem Within.cons {s : Station} {stations : List Station}
    (h : (Web.holderPart s.holder).uses ⊆ r.uses) (hs : r.Within stations) :
    r.Within (s :: stations) := List.forall_mem_cons.2 ⟨h, hs⟩

mutual

theorem Within.containers (above : List Station) (inherited : List String) (place : Place)
    (habove : r.Within above) : ∀ res : Resource, res.uses ⊆ r.uses →
      ∀ c ∈ res.containers above inherited place, r.Within (c.here :: c.above)
  | ⟨id, path, types, queryType, params, methods, resources, docs⟩, h, c, hc => by
    rw [Resource.containers] at hc
    have hhere : ∀ segments,
        r.Within (⟨.resource ⟨id, path, types, queryType, params, methods, resources, docs⟩,
        place, segments⟩ :: above) := fun _ => habove.cons h
    rcases List.mem_cons.1 hc with rfl | hc
    · exact hhere _
    · refine Within.containersBelow _ _ place 0 (hhere _) resources ?_ c hc
      rw [Resource.uses] at h
      exact fun u hu => h (List.mem_append_right _ hu)

theorem Within.containersBelow (above : List Station) (inherited : List String)
    (place : Place) (n : Nat) (habove : r.Within above) :
    ∀ rs : List Resource, resourceUses rs ⊆ r.uses →
      ∀ c ∈ Wadl.containersBelow above inherited place n rs, r.Within (c.here :: c.above)
  | [], _, c, hc => by simp [Wadl.containersBelow] at hc
  | res :: rs, h, c, hc => by
    rw [resourceUses, List.append_subset] at h
    rw [Wadl.containersBelow] at hc
    rcases List.mem_append.1 hc with hc | hc
    · exact Within.containers _ _ _ habove res h.1 c hc
    · exact Within.containersBelow _ _ place (n + 1) habove rs h.2 c hc

end

/-- Resource types are those of the description and those that the table holds. -/
theorem uses_of_mem_resourceTypes {t : Placed ResourceType} (ht : t ∈ r.resourceTypes) :
    t.value.uses ⊆ r.uses := by
  intro u hu
  rcases List.mem_append.1 (Web.mem_of_mem_distinctPlaces ht) with ht | ht
  · obtain ⟨⟨type, n⟩, hmem, rfl⟩ := List.mem_map.1 ht
    exact List.mem_append_left _
      (Application.resourceType_uses (List.fst_mem_of_mem_zipIdx hmem) hu)
  · obtain ⟨⟨href, target⟩, hmem, ht⟩ := List.mem_filterMap.1 ht
    simp only at ht
    split at ht
    · rename_i type hdef
      split at ht
      · cases ht
      · rw [← Option.some.inj ht] at hu
        refine List.mem_append_right _ (List.mem_flatMap.2 ⟨_, hmem, ?_⟩)
        rw [hdef]
        exact hu
    · cases ht

/-- All references in containers are references of the resolved description. -/
theorem containers_within (r : Resolution) {c : Container} (hc : c ∈ r.containers) :
    r.Within (c.here :: c.above) := by
  rcases List.mem_append.1 hc with hc | hc
  · obtain ⟨t, ht, hc⟩ := List.mem_flatMap.1 hc
    have htype := uses_of_mem_resourceTypes ht
    have hhere : r.Within [⟨.type t.value, t.place, [t.value.id]⟩] :=
      Within.cons htype (by simp [Within])
    rw [ResourceType.containers] at hc
    rcases List.mem_cons.1 hc with rfl | hc
    · exact hhere
    · exact Within.containersBelow _ _ _ 0 hhere _
        (fun u hu => htype (List.mem_append_right _ hu)) c hc
  · obtain ⟨⟨group, n⟩, hmem, hc⟩ := List.mem_flatMap.1 hc
    have hgroup := Application.group_uses (List.fst_mem_of_mem_zipIdx hmem)
    exact Within.containersBelow _ _ _ 0 (by simp [Within]) _
      (fun u hu => List.mem_append_left _ (hgroup hu)) c hc

/-! ## Methods and usages -/

theorem holder_params_uses (h : Holder) :
    h.params.flatMap ParamItem.uses ⊆ (Web.holderPart h).uses := by
  intro u hu
  cases h with
  | resource res => exact res.params_uses hu
  | type t => exact List.mem_append_left _ (List.mem_append_left _ hu)

theorem holder_methods_uses (h : Holder) :
    h.methods.flatMap MethodItem.uses ⊆ (Web.holderPart h).uses := by
  intro u hu
  cases h with
  | resource res => exact res.methods_uses hu
  | type t => exact List.mem_append_left _ (List.mem_append_right _ hu)

theorem bodyItems_uses {m : Placed Method} : ∀ x ∈ bodyItems m, x.2.1.uses ⊆ m.value.uses := by
  intro x hx u hu
  rcases List.mem_append.1 hx with hx | hx
  · cases hreq : m.value.request with
    | none => simp [hreq] at hx
    | some request =>
      rw [hreq] at hx
      obtain ⟨⟨item, n⟩, hmem, rfl⟩ := List.mem_map.1 hx
      exact List.forall_mem_flatMap.1 (Method.requestBodies_uses hreq) _
        (List.fst_mem_of_mem_zipIdx hmem) _ hu
  · obtain ⟨⟨response, k⟩, hresponse, hx⟩ := List.mem_flatMap.1 hx
    obtain ⟨⟨item, n⟩, hmem, rfl⟩ := List.mem_map.1 hx
    have hbodies := Method.responseBodies_uses (List.fst_mem_of_mem_zipIdx hresponse)
    exact List.forall_mem_flatMap.1 hbodies _ (List.fst_mem_of_mem_zipIdx hmem) _ hu

/-- The methods of a container have their references in the description. -/
theorem Settled.methods (hr : r.Settled) {c : Container} (hc : c ∈ r.containers) :
    Result.Ensures (r.methods c) (fun ms => ∀ m ∈ ms, m.value.uses ⊆ r.uses)
      ResolveError.IsCyclic := by
  refine .mapM fun x hx => hr.method ?_
  have hmethods :=
    List.Subset.trans (holder_methods_uses _) (containers_within r hc _ List.mem_cons_self)
  exact List.forall_mem_flatMap.1 hmethods _ (List.fst_mem_of_mem_zipIdx hx)

/-- Going through all usages never leaves the description. -/
theorem Settled.foldUsages (hr : r.Settled) {ε σ : Type} {lift : ResolveError → ε}
    {visit : σ → Usage → Except ε σ} {start : σ} {Inv : σ → Prop} {E : ε → Prop}
    (hlift : ∀ e, e.IsCyclic → E (lift e)) (hstart : Inv start)
    (step : ∀ s u, Inv s → u.representation.value.uses ⊆ r.uses →
      Result.Ensures (visit s u) Inv E) :
    Result.Ensures (r.foldUsages lift visit start) Inv E := by
  refine .foldlM hstart fun c hc s hs => ((hr.methods hc).mapError hlift).bind fun ms hms => ?_
  refine .foldlM hs fun m hm s hs => .foldlM hs fun ⟨place, item, role⟩ hx s hs => ?_
  have hitem := List.Subset.trans (bodyItems_uses _ hx) (hms m hm)
  exact ((hr.representation hitem).mapError hlift).bind fun rep h => step s _ hs h

end Resolution

end Wadl
