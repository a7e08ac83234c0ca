import Wadl.Proofs.Document.Parts
import Wadl.Proofs.Resolution.Closure
import Wadl.Resolution.Container

/-!
# Places in a web

Each place of a web has one part at most (`Web.stands_unique`). What a resolution gives for
references, and the containers, methods and representations that it goes through, all stand at their
places. Going through the representations that methods take and answer is going through the list of
usages (`Resolution.foldUsages_ok`), all of which stand at their places too (`Web.stands_usage`).
-/

namespace Wadl

namespace Web

variable {w : Web} {r : Resolution}

variable (w) in
/-- A part stands at a place of a web. -/
def Stands (place : Place) (p : Part) : Prop :=
  ∃ d, w.IsDocument place.document d ∧ (Part.application d).at? place.steps = some p

/-- At a place stands one part. -/
theorem stands_unique {place : Place} {p q : Part} (hp : w.Stands place p) (hq : w.Stands place q) :
    p = q := by
  obtain ⟨d, hd, hp⟩ := hp
  obtain ⟨d', hd', hq⟩ := hq
  rw [isDocument_unique hd hd', hq] at hp
  exact (Option.some.inj hp).symm

theorem Stands.child {place : Place} {p q : Part} {s : Step} (h : w.Stands place p)
    (hchild : p.child? s = some q) : w.Stands (place.child s) q := by
  obtain ⟨d, hd, hp⟩ := h
  exact ⟨d, hd, Part.at?_child hp hchild⟩

/-- What a reference names stands at its place. -/
theorem Names.stands {ref : Reference} {t : Target} (h : w.Names ref t) :
    w.Stands t.place t.definition.part := by
  obtain ⟨id, d, index, entry, -, hd, hindex, hentry, hdef, hsteps⟩ := h
  refine ⟨d, hd, ?_⟩
  rw [hdef, hsteps]
  exact Application.entry_at (Index.mem_entries hindex hentry)

theorem stands_top (hr : w.Resolves r) {s : Step} {p : Part}
    (h : (Part.application r.app).child? s = some p) : w.Stands ⟨r.app.baseUri, [s]⟩ p := by
  refine ⟨r.app, ?_, h⟩
  rw [IsDocument, hr.app_eq, if_pos rfl]

/-- The table has what stands at its places. -/
theorem Resolves.stands (hr : w.Resolves r) {href : String} {t : Target}
    (h : r.targets.lookup href = some t) : w.Stands t.place t.definition.part := by
  obtain ⟨ref, href', rfl⟩ := (hr.mem_keys href).1 (mem_keys_of_lookup.2 ⟨t, h⟩)
  obtain ⟨t', -, hlookup, hnames, -⟩ := hr.lookup ref href'
  obtain rfl := Option.some.inj (h.symm.trans hlookup)
  exact hnames.stands

theorem deref_ok {ref : Reference} {t : Target} :
    r.deref ref = .ok t ↔ r.targets.lookup ref.href = some t := by
  rw [Resolution.deref]
  cases r.targets.lookup ref.href <;> simp

/-- At the end of a chain of aliases stands what the table has there. -/
theorem followFrom_ok {α : Type} {wanted : Resolution.Wanted α} {value : Placed α} :
    ∀ {fuel : Nat} {chain : List String} {ref : Reference},
      r.followFrom wanted fuel chain ref = .ok value →
      ∃ href t, r.targets.lookup href = some t ∧ t.place = value.place ∧
        wanted.concrete? t.definition = some value.value
  | 0, chain, ref, h => by cases h
  | fuel + 1, chain, ref, h => by
    obtain ⟨t, ht, h⟩ := Result.bind_ok.1 h
    have hlookup := deref_ok.1 ht
    split at h
    · rename_i v hv
      rw [← Result.pure_ok.1 h]
      exact ⟨ref.href, t, hlookup, rfl, hv⟩
    · split at h
      · cases h
      · split at h
        · cases h
        · exact followFrom_ok h

/-- What a reference names, directly or through aliases, stands at the place that comes with it. -/
theorem stands_follow {α : Type} {wanted : Resolution.Wanted α} {toPart : α → Part}
    (hpart : ∀ d v, wanted.concrete? d = some v → d.part = toPart v) (hr : w.Resolves r)
    {ref : Reference} {p : Placed α} (h : r.follow wanted ref = .ok p) :
    w.Stands p.place (toPart p.value) := by
  obtain ⟨href, t, hlookup, hplace, hvalue⟩ := followFrom_ok h
  have hstands := hr.stands hlookup
  rwa [hplace, hpart _ _ hvalue] at hstands

theorem part_of_representation {d : Definition} {rep : Representation}
    (h : Resolution.Wanted.representation.concrete? d = some rep) :
    d.part = .representation (.inline rep) := by
  unfold Resolution.Wanted.representation at h
  simp only at h
  split at h
  · rw [Option.some.inj h]
    rfl
  · cases h

theorem part_of_method {d : Definition} {m : Method}
    (h : Resolution.Wanted.method.concrete? d = some m) : d.part = .method (.inline m) := by
  unfold Resolution.Wanted.method at h
  simp only at h
  split at h
  · rw [Option.some.inj h]
    rfl
  · cases h

theorem stands_representation (hr : w.Resolves r) {place : Place} {item : RepresentationItem}
    {rep : Placed Representation} (hitem : w.Stands place (.representation item))
    (h : r.representation place item = .ok rep) :
    w.Stands rep.place (.representation (.inline rep.value)) := by
  cases item with
  | inline v =>
    rw [← Except.ok.inj h]
    exact hitem
  | ref ref id => exact stands_follow (fun _ _ => part_of_representation) hr h

theorem stands_method (hr : w.Resolves r) {place : Place} {item : MethodItem} {m : Placed Method}
    (hitem : w.Stands place (.method item)) (h : r.method place item = .ok m) :
    w.Stands m.place (.method (.inline m.value)) := by
  cases item with
  | inline v =>
    rw [← Except.ok.inj h]
    exact hitem
  | ref ref => exact stands_follow (fun _ _ => part_of_method) hr h

/-! ## Containers -/

/-- A holder as a part of its description. -/
def holderPart : Holder → Part
  | .resource r => .resource r
  | .type t => .resourceType t

mutual

theorem stands_containers (above : List Station) (inherited : List String) (place : Place) :
    ∀ (res : Resource), w.Stands place (.resource res) →
      ∀ c ∈ res.containers above inherited place, w.Stands c.place (holderPart c.here.holder)
  | ⟨id, path, types, queryType, params, methods, resources, docs⟩, h, c, hc => by
    rw [Resource.containers] at hc
    rcases List.mem_cons.1 hc with rfl | hc
    · exact h
    · exact stands_containersBelow _ _ place 0 resources h (fun k => by rw [Nat.zero_add]; rfl) c hc

/-- The resources are the children of their part from the `n`-th on. -/
theorem stands_containersBelow (above : List Station) (inherited : List String) (place : Place)
    (n : Nat) : ∀ (rs : List Resource) {p : Part}, w.Stands place p →
      (∀ k, p.child? (.resource (n + k)) = rs[k]?.map .resource) →
      ∀ c ∈ containersBelow above inherited place n rs, w.Stands c.place (holderPart c.here.holder)
  | [], p, _, _, c, hc => by simp [containersBelow] at hc
  | res :: rs, p, h, hchildren, c, hc => by
    rw [containersBelow] at hc
    rcases List.mem_append.1 hc with hc | hc
    · exact stands_containers _ _ _ res (h.child (by simpa using hchildren 0)) c hc
    · refine stands_containersBelow _ _ place (n + 1) rs h (fun k => ?_) c hc
      rw [Nat.add_assoc, Nat.add_comm 1 k, hchildren (k + 1), List.getElem?_cons_succ]

end

theorem mem_of_mem_distinctPlaces {α : Type} {p : Placed α} :
    ∀ {ps : List (Placed α)}, p ∈ distinctPlaces ps → p ∈ ps
  | [], h => by cases h
  | q :: ps, h => by
    rw [distinctPlaces] at h
    rcases List.mem_cons.1 h with rfl | h
    · exact List.mem_cons_self
    · exact List.mem_cons_of_mem q (mem_of_mem_distinctPlaces (List.mem_filter.1 h).1)

theorem stands_resourceTypes (hr : w.Resolves r) :
    ∀ t ∈ r.resourceTypes, w.Stands t.place (.resourceType t.value) := by
  intro t ht
  rcases List.mem_append.1 (mem_of_mem_distinctPlaces ht) with ht | ht
  · obtain ⟨⟨type, n⟩, hmem, rfl⟩ := List.mem_map.1 ht
    exact stands_top hr (by rw [Part.child?, getElem?_of_mem_zipIdx hmem]; rfl)
  · obtain ⟨⟨href, target⟩, hmem, ht⟩ := List.mem_filterMap.1 ht
    have hstands := hr.stands (lookup_of_mem hr.keys_nodup hmem)
    simp only at ht
    split at ht
    · rename_i type hdef
      split at ht
      · cases ht
      · rw [← Option.some.inj ht]
        rw [hdef] at hstands
        exact hstands
    · cases ht

/-- Each container stands at its place. -/
theorem stands_container (hr : w.Resolves r) {c : Container} (hc : c ∈ r.containers) :
    w.Stands c.place (holderPart c.here.holder) := by
  rcases List.mem_append.1 hc with hc | hc
  · obtain ⟨t, ht, hc⟩ := List.mem_flatMap.1 hc
    have htype := stands_resourceTypes hr t ht
    rw [ResourceType.containers] at hc
    rcases List.mem_cons.1 hc with rfl | hc
    · exact htype
    · exact stands_containersBelow _ _ _ 0 _ htype (fun k => by rw [Nat.zero_add]; rfl) c hc
  · obtain ⟨⟨group, n⟩, hmem, hc⟩ := List.mem_flatMap.1 hc
    have hgroup : w.Stands ⟨r.app.baseUri, [.group n]⟩ (.group group) :=
      stands_top hr (by rw [Part.child?, getElem?_of_mem_zipIdx hmem]; rfl)
    exact stands_containersBelow _ _ _ 0 _ hgroup (fun k => by rw [Nat.zero_add]; rfl) c hc

/-- The methods of a container stand at their places. -/
theorem stands_methods (hr : w.Resolves r) {c : Container} (hc : c ∈ r.containers)
    {ms : List (Placed Method)} (h : r.methods c = .ok ms) :
    ∀ m ∈ ms, w.Stands m.place (.method (.inline m.value)) := by
  intro m hm
  obtain ⟨⟨item, n⟩, hmem, hitem⟩ := (Result.mem_mapM_ok h).1 hm
  refine stands_method hr ((stands_container hr hc).child ?_) hitem
  have hitem_at := getElem?_of_mem_zipIdx hmem
  unfold Holder.methods at hitem_at
  cases hholder : c.here.holder with
  | resource res =>
    rw [hholder] at hitem_at
    rw [holderPart, Part.child?, hitem_at]
    rfl
  | type t =>
    rw [hholder] at hitem_at
    rw [holderPart, Part.child?, hitem_at]
    rfl

/-- The items of a method stand at their places. -/
theorem stands_bodyItems {m : Placed Method} (hm : w.Stands m.place (.method (.inline m.value))) :
    ∀ x ∈ Resolution.bodyItems m, w.Stands x.1 (.representation x.2.1) := by
  intro x hx
  rcases List.mem_append.1 hx with hx | hx
  · cases hreq : m.value.request with
    | none => simp [hreq] at hx
    | some request =>
      rw [hreq] at hx
      obtain ⟨⟨item, n⟩, hmem, rfl⟩ := List.mem_map.1 hx
      have hrequest : w.Stands (m.place.child .request) (.request request) :=
        hm.child (by rw [Part.child?, hreq]; rfl)
      exact hrequest.child (by rw [Part.child?, getElem?_of_mem_zipIdx hmem]; rfl)
  · obtain ⟨⟨response, k⟩, hresponse, hx⟩ := List.mem_flatMap.1 hx
    obtain ⟨⟨item, n⟩, hmem, rfl⟩ := List.mem_map.1 hx
    have hstands : w.Stands (m.place.child (.response k)) (.response response) :=
      hm.child (by rw [Part.child?, getElem?_of_mem_zipIdx hresponse]; rfl)
    exact hstands.child (by rw [Part.child?, getElem?_of_mem_zipIdx hmem]; rfl)

end Web

/-! ## All usages -/

namespace Resolution

variable {ε σ : Type} {r : Resolution}

/-- The usages in a method of a container. -/
def methodUsages (r : Resolution) (c : Container) (m : Placed Method) :
    Except ResolveError (List Usage) :=
  List.flatten <$> (bodyItems m).mapM fun x =>
    (fun rep => [⟨rep, c, m, x.2.2⟩]) <$> r.representation x.1 x.2.1

/-- The usages in a container. -/
def containerUsages (r : Resolution) (c : Container) : Except ResolveError (List Usage) := do
  let methods ← r.methods c
  List.flatten <$> methods.mapM (methodUsages r c)

/-- A loop in which each step visits the elements of a list is the loop over all these elements. -/
theorem foldlM_flatten {δ α β : Type} {f : α → Except δ (List β)} {g : σ → α → Except ε σ}
    {visit : σ → β → Except ε σ}
    (h : ∀ x s t, g s x = .ok t ↔ ∃ ys, f x = .ok ys ∧ ys.foldlM visit s = .ok t) :
    ∀ {xs : List α} {s t : σ}, xs.foldlM g s = .ok t ↔
      ∃ ys, List.flatten <$> xs.mapM f = .ok ys ∧ ys.foldlM visit s = .ok t
  | [], s, t => by
    rw [List.foldlM_nil, List.mapM_nil]
    constructor
    · intro h
      exact ⟨[], rfl, h⟩
    · rintro ⟨ys, hys, h⟩
      obtain rfl : [] = ys := Except.ok.inj hys
      exact h
  | x :: xs, s, t => by
    rw [List.foldlM_cons, List.mapM_cons, Result.bind_ok]
    constructor
    · rintro ⟨u, hx, hxs⟩
      obtain ⟨ys, hys, hvisit⟩ := (h x s u).1 hx
      obtain ⟨zs, hzs, hvisit'⟩ := (foldlM_flatten h).1 hxs
      obtain ⟨zss, hzss, rfl⟩ := Result.map_ok.1 hzs
      refine ⟨ys ++ zss.flatten, Result.map_ok.2 ⟨ys :: zss, ?_, rfl⟩, ?_⟩
      · exact Result.bind_ok.2 ⟨ys, hys, Result.bind_ok.2 ⟨zss, hzss, rfl⟩⟩
      · rw [List.foldlM_append]
        exact Result.bind_ok.2 ⟨u, hvisit, hvisit'⟩
    · rintro ⟨all, hall, hvisit⟩
      obtain ⟨yss, hyss, rfl⟩ := Result.map_ok.1 hall
      obtain ⟨ys, hys, hyss⟩ := Result.bind_ok.1 hyss
      obtain ⟨zss, hzss, hyss⟩ := Result.bind_ok.1 hyss
      obtain rfl := Result.pure_ok.1 hyss
      rw [List.flatten_cons, List.foldlM_append] at hvisit
      obtain ⟨u, hvisit, hvisit'⟩ := Result.bind_ok.1 hvisit
      exact ⟨u, (h x s u).2 ⟨ys, hys, hvisit⟩,
        (foldlM_flatten h).2 ⟨zss.flatten, Result.map_ok.2 ⟨zss, hzss, rfl⟩, hvisit'⟩⟩

/-- Going through all usages is going through their list. -/
theorem foldUsages_flatten {lift : ResolveError → ε} {visit : σ → Usage → Except ε σ} {s t : σ} :
    r.foldUsages lift visit s = .ok t ↔
      ∃ us, List.flatten <$> r.containers.mapM (containerUsages r) = .ok us ∧
        us.foldlM visit s = .ok t := by
  refine foldlM_flatten fun c s t => ?_
  have hmethod : ∀ (m : Placed Method) (s t : σ),
      ((bodyItems m).foldlM (fun s x => do
        let rep ← (r.representation x.1 x.2.1).mapError lift
        visit s ⟨rep, c, m, x.2.2⟩) s) = .ok t ↔
      ∃ us, methodUsages r c m = .ok us ∧ us.foldlM visit s = .ok t := by
    intro m s t
    refine foldlM_flatten fun x s t => ?_
    rw [Result.bind_ok]
    constructor
    · rintro ⟨rep, hrep, h⟩
      refine ⟨[⟨rep, c, m, x.2.2⟩], Result.map_ok.2 ⟨rep, Result.mapError_ok.1 hrep, rfl⟩, ?_⟩
      rw [List.foldlM_cons]
      exact Result.bind_ok.2 ⟨t, h, rfl⟩
    · rintro ⟨us, hus, h⟩
      obtain ⟨rep, hrep, rfl⟩ := Result.map_ok.1 hus
      rw [List.foldlM_cons] at h
      obtain ⟨u, hvisit, hu⟩ := Result.bind_ok.1 h
      obtain rfl : u = t := Except.ok.inj hu
      exact ⟨rep, Result.mapError_ok.2 hrep, hvisit⟩
  rw [Result.bind_ok, containerUsages]
  constructor
  · rintro ⟨ms, hms, h⟩
    obtain ⟨us, hus, hvisit⟩ := (foldlM_flatten hmethod).1 h
    exact ⟨us, Result.bind_ok.2 ⟨ms, Result.mapError_ok.1 hms, hus⟩, hvisit⟩
  · rintro ⟨us, hus, hvisit⟩
    obtain ⟨ms, hms, hus⟩ := Result.bind_ok.1 hus
    exact ⟨ms, Result.mapError_ok.2 hms, (foldlM_flatten hmethod).2 ⟨us, hus, hvisit⟩⟩

theorem usages_flatten {us : List Usage} :
    r.usages = .ok us ↔ List.flatten <$> r.containers.mapM (containerUsages r) = .ok us := by
  have happend : ∀ (us found : List Usage),
      us.foldlM (fun found u =>
        (Except.ok (found ++ [u]) : Except ResolveError (List Usage))) found =
        .ok (found ++ us) := by
    intro us
    induction us with
    | nil => exact fun found => by rw [List.append_nil]; rfl
    | cons u us ih =>
      intro found
      rw [List.foldlM_cons]
      exact (ih (found ++ [u])).trans (by rw [List.append_assoc]; rfl)
  rw [usages, foldUsages_flatten]
  constructor
  · rintro ⟨all, hall, h⟩
    rw [happend, List.nil_append] at h
    rw [hall, Except.ok.inj h]
  · intro h
    exact ⟨us, h, by rw [happend, List.nil_append]⟩

/-- Going through all usages is going through their list. -/
theorem foldUsages_ok {lift : ResolveError → ε} {visit : σ → Usage → Except ε σ} {s t : σ} :
    r.foldUsages lift visit s = .ok t ↔ ∃ us, r.usages = .ok us ∧ us.foldlM visit s = .ok t := by
  rw [foldUsages_flatten]
  simp only [usages_flatten]

/-- A usage is an item of a method of a container, followed to what it names. -/
theorem of_mem_usages {us : List Usage} {u : Usage} (h : r.usages = .ok us) (hu : u ∈ us) :
    ∃ c ∈ r.containers, ∃ ms, r.methods c = .ok ms ∧ ∃ m ∈ ms, ∃ x ∈ bodyItems m, ∃ rep,
      r.representation x.1 x.2.1 = .ok rep ∧ u = ⟨rep, c, m, x.2.2⟩ := by
  obtain ⟨uss, huss, rfl⟩ := Result.map_ok.1 (usages_flatten.1 h)
  obtain ⟨cs, hcs, hu⟩ := List.mem_flatten.1 hu
  obtain ⟨c, hc, hcs⟩ := (Result.mem_mapM_ok huss).1 hcs
  obtain ⟨ms, hms, hcs⟩ := Result.bind_ok.1 hcs
  obtain ⟨mss, hmss, rfl⟩ := Result.map_ok.1 hcs
  obtain ⟨xs, hxs, hu⟩ := List.mem_flatten.1 hu
  obtain ⟨m, hm, hxs⟩ := (Result.mem_mapM_ok hmss).1 hxs
  obtain ⟨yss, hyss, rfl⟩ := Result.map_ok.1 hxs
  obtain ⟨ys, hys, hu⟩ := List.mem_flatten.1 hu
  obtain ⟨x, hx, hys⟩ := (Result.mem_mapM_ok hyss).1 hys
  obtain ⟨rep, hrep, rfl⟩ := Result.map_ok.1 hys
  exact ⟨c, hc, ms, hms, m, hm, x, hx, rep, hrep, List.mem_singleton.1 hu⟩

end Resolution

/-- The representation of a usage stands at its place. -/
theorem Web.stands_usage {w : Web} {r : Resolution} (hr : w.Resolves r)
    {us : List Usage} {u : Usage} (h : r.usages = .ok us) (hu : u ∈ us) :
    w.Stands u.representation.place (.representation (.inline u.representation.value)) := by
  obtain ⟨c, hc, ms, hms, m, hm, x, hx, rep, hrep, rfl⟩ := Resolution.of_mem_usages h hu
  exact stands_representation hr (stands_bodyItems (stands_methods hr hc hms m hm) x hx) hrep

end Wadl
