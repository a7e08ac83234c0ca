import Wadl.Proofs.Document.Reordering
import Wadl.Proofs.Resolution.Containers
import Wadl.Proofs.Resolution.Places

/-!
# Resolutions of reordered documents

If the documents of two resolutions are the same but for the order of representations and of their
params (`Resolution.Reordered`), then the same references are reachable
(`Resolution.Reordered.reachable`), and each names a definition and its reordered counterpart
(`Resolution.Reordered.mirrors`). So going through the containers, the methods and the
representations of both finds what belongs together (`Mirrors.exists_usage`), though in another
order: resource types of other documents come in the order in which they were followed.
-/

namespace Wadl

open Web

/-! ## Reordered resolutions -/

/-- The description and the documents of one resolution are those of the other, reordered. -/
structure Resolution.Reordered (r r' : Resolution) : Prop where
  app : r.app.Reordered r'.app
  documents : ∀ uri,
    Option.Rel Application.Reordered (r.documents.lookup uri) (r'.documents.lookup uri)

/-- What a reference names in reordered documents. -/
structure Target.Reordered (t t' : Target) : Prop where
  document : t.place.document = t'.place.document
  moved : t.definition.Moved t.place.steps t'.definition t'.place.steps

/-- A place, and where its representation stands in a reordered description. -/
structure Place.Moved (p p' : Place) : Prop where
  document : p.document = p'.document
  steps : p.steps = p'.steps ∨ ∃ n n', p.steps = [.representation n] ∧
    p'.steps = [.representation n']

/-- A representation and its reordered counterpart. -/
structure Placed.Reordered (a a' : Placed Representation) : Prop where
  value : a.value.Reordered a'.value
  place : a.place.Moved a'.place

/-- One resolution names the reordered counterparts of what the other names. -/
structure Resolution.Mirrors (r r' : Resolution) : Prop where
  app : r.app.Reordered r'.app
  targets : ∀ href, Option.Rel Target.Reordered (r.targets.lookup href) (r'.targets.lookup href)

theorem optionRel_symm {α β : Type} {R : α → β → Prop} {S : β → α → Prop}
    {x : Option α} {y : Option β} (h : Option.Rel R x y) (hsymm : ∀ a b, R a b → S b a) :
    Option.Rel S y x := by
  cases h with
  | some h => exact .some (hsymm _ _ h)
  | none => exact .none

/-- What was reordered can be ordered back; so can each part below. -/
theorem Resolution.Reordered.symm {r r' : Resolution} (h : r.Reordered r') : r'.Reordered r :=
  ⟨h.app.symm, fun uri => optionRel_symm (h.documents uri) fun _ _ => .symm⟩

theorem Definition.Moved.symm {d d' : Definition} {steps steps' : List Step}
    (h : d.Moved steps d' steps') : d'.Moved steps' d steps := by
  refine ⟨h.definition.symm, h.steps.imp Eq.symm ?_⟩
  rintro ⟨item, n, n', rfl, hn, hn'⟩
  cases h.definition with
  | @representation _ item' => exact ⟨item', n', n, rfl, hn', hn⟩

theorem Target.Reordered.symm {t t' : Target} (h : t.Reordered t') : t'.Reordered t :=
  ⟨h.document.symm, h.moved.symm⟩

theorem Target.Reordered.place_moved {t t' : Target} (h : t.Reordered t') :
    t.place.Moved t'.place := by
  refine ⟨h.document, h.moved.steps.imp_right ?_⟩
  rintro ⟨_, n, n', -, hn, hn'⟩
  exact ⟨n, n', hn, hn'⟩

/-- Only representations move. -/
theorem Target.Reordered.place_eq {t t' : Target} (h : t.Reordered t')
    (hstays : ∀ item, t.definition ≠ .representation item) : t.place = t'.place := by
  have hsteps : t.place.steps = t'.place.steps := by
    refine h.moved.steps.resolve_right ?_
    rintro ⟨item, _, _, hdef, -⟩
    exact hstays item hdef
  have hdocument := h.document
  generalize t.place = p, t'.place = p' at hsteps hdocument
  cases p
  cases p'
  simp_all

theorem Place.Moved.symm {p p' : Place} (h : p.Moved p') : p'.Moved p := by
  refine ⟨h.document.symm, h.steps.imp Eq.symm ?_⟩
  rintro ⟨n, n', hn, hn'⟩
  exact ⟨n', n, hn', hn⟩

theorem Placed.Reordered.symm {a a' : Placed Representation} (h : a.Reordered a') :
    a'.Reordered a :=
  ⟨h.value.symm, h.place.symm⟩

theorem Resolution.Mirrors.symm {r r' : Resolution} (h : r.Mirrors r') : r'.Mirrors r :=
  ⟨h.app.symm, fun href => optionRel_symm (h.targets href) fun _ _ => .symm⟩

/-! ## What references name -/

section Names

variable {w w' : Web} {r r' : Resolution} {ref : Reference} {t t' : Target}

/-- References that name the same definition lead to the same document. -/
theorem document_eq_of_names (h : w.Names ref t) (h' : w'.Names ref t') :
    t.place.document = t'.place.document := by
  obtain ⟨id, _, _, _, htarget, -⟩ := h
  obtain ⟨id', _, _, _, htarget', -⟩ := h'
  exact (Prod.mk.inj (Except.ok.inj (htarget.symm.trans htarget'))).1

/-- In reordered documents a reference names a definition and its counterpart. -/
theorem reordered_of_names {d d' : Application} (h : w.Names ref t) (h' : w'.Names ref t')
    (hd : w.IsDocument t.place.document d) (hd' : w'.IsDocument t'.place.document d')
    (hdd : d.Reordered d') : t.Reordered t' := by
  refine ⟨document_eq_of_names h h', ?_⟩
  obtain ⟨id, doc, index, entry, htarget, hdoc, hindex, hentry, hdef, hsteps⟩ := h
  obtain ⟨id', doc', index', entry', htarget', hdoc', hindex', hentry', hdef', hsteps'⟩ := h'
  obtain rfl := isDocument_unique hd hdoc
  obtain rfl := isDocument_unique hd' hdoc'
  obtain ⟨-, rfl⟩ := Prod.mk.inj (Except.ok.inj (htarget.symm.trans htarget'))
  obtain ⟨def', steps', hdeclares, hmoved⟩ :=
    hdd.declares ((Index.declares_iff hindex).2 ⟨entry, hentry, rfl, rfl⟩)
  obtain ⟨named, hnamed, rfl, rfl⟩ := (Index.declares_iff hindex').1 hdeclares
  obtain rfl := Option.some.inj (hnamed.symm.trans hentry')
  rwa [hdef, hsteps, hdef', hsteps']

namespace Resolution.Reordered

/-- A reference that can be reached in both webs names a definition and its counterpart. -/
theorem lookup (h : r.Reordered r') (hr : w.Resolves r) (hr' : w'.Resolves r')
    (href : w.Reachable ref) (href' : w'.Reachable ref) :
    ∃ t t', r.targets.lookup ref.href = some t ∧ w.Names ref t ∧
      r'.targets.lookup ref.href = some t' ∧ w'.Names ref t' ∧ t.Reordered t' := by
  obtain ⟨t, d, hlookup, hnames, -, hdoc, hd⟩ := hr.lookup ref href
  obtain ⟨t', d', hlookup', hnames', -, hdoc', hd'⟩ := hr'.lookup ref href'
  have hdd := h.documents t.place.document
  rw [hdoc, document_eq_of_names hnames hnames', hdoc'] at hdd
  cases hdd with
  | some hdd =>
    exact ⟨t, t', hlookup, hnames, hlookup', hnames', reordered_of_names hnames hnames' hd hd' hdd⟩

/-- The same references can be reached. -/
theorem reachable (h : r.Reordered r') (hr : w.Resolves r) (hr' : w'.Resolves r')
    (href : w.Reachable ref) : w'.Reachable ref := by
  induction href with
  | here hmem =>
    rw [← hr.app_eq] at hmem
    exact .here (hr'.app_eq ▸ h.app.references.mem_iff.1 hmem)
  | inside houter hnames hmem ih =>
    obtain ⟨t, t', -, hnamed, -, hnamed', hmoved⟩ := h.lookup hr hr' houter ih
    obtain rfl := names_unique rfl hnames hnamed
    exact .inside ih hnamed' (hmoved.moved.definition.references.mem_iff.1 hmem)

/-- A reordered resolution has the same documents, types and definitions, at places that moved. -/
theorem mirrors (h : r.Reordered r') (hr : w.Resolves r) (hr' : w'.Resolves r') : r.Mirrors r' := by
  refine ⟨h.app, fun href => ?_⟩
  by_cases hmem : href ∈ r.targets.map (·.1)
  · obtain ⟨ref, href, rfl⟩ := (hr.mem_keys href).1 hmem
    obtain ⟨t, t', ht, -, ht', -, hmoved⟩ := h.lookup hr hr' href (h.reachable hr hr' href)
    rw [ht, ht']
    exact .some hmoved
  · have hmem' : href ∉ r'.targets.map (·.1) := by
      intro hkey
      obtain ⟨ref, href', rfl⟩ := (hr'.mem_keys href).1 hkey
      exact hmem ((hr.mem_keys _).2 ⟨ref, h.symm.reachable hr' hr href', rfl⟩)
    rw [mem_keys_of_lookup] at hmem hmem'
    rw [Option.eq_none_iff_forall_ne_some.2 fun t ht => hmem ⟨t, ht⟩,
      Option.eq_none_iff_forall_ne_some.2 fun t ht => hmem' ⟨t, ht⟩]
    exact .none

end Resolution.Reordered

end Names

/-! ## Following -/

namespace Resolution.Mirrors

variable {r r' : Resolution}

/-- Two chains of the same reference end at a definition and its counterpart, if the reordering
leaves alone what is wanted and what is an alias. -/
theorem followFrom {α : Type} {wanted : Wanted α} (h : r.Mirrors r')
    (hsame : ∀ d d' : Definition, d.Reordered d' →
      ((wanted.concrete? d).isSome = (wanted.concrete? d').isSome ∧
        wanted.alias? d = wanted.alias? d'))
    {a a' : Placed α} {fuel fuel' : Nat} {chain chain' : List String} {ref : Reference}
    (ha : r.followFrom wanted fuel chain ref = .ok a)
    (ha' : r'.followFrom wanted fuel' chain' ref = .ok a') :
    ∃ t t' : Target, t.Reordered t' ∧ t.place = a.place ∧ t'.place = a'.place ∧
      wanted.concrete? t.definition = some a.value ∧ wanted.concrete? t'.definition =
        some a'.value := by
  induction fuel generalizing fuel' chain chain' ref with
  | zero => cases ha
  | succ fuel ih =>
    cases fuel' with
    | zero => cases ha'
    | succ fuel' =>
      obtain ⟨t, ht, ha⟩ := Result.bind_ok.1 ha
      obtain ⟨t', ht', ha'⟩ := Result.bind_ok.1 ha'
      obtain ⟨u, hu, htu⟩ := optionRel_some (h.targets ref.href) (deref_ok.1 ht)
      obtain rfl := Option.some.inj (hu.symm.trans (deref_ok.1 ht'))
      obtain ⟨hconcrete, halias⟩ := hsame _ _ htu.moved.definition
      split at ha
      · rename_i v hv
        rw [hv] at hconcrete
        obtain ⟨v', hv'⟩ := Option.isSome_iff_exists.1 hconcrete.symm
        simp only [hv'] at ha'
        rw [← Result.pure_ok.1 ha, ← Result.pure_ok.1 ha']
        exact ⟨t, u, htu, rfl, rfl, hv, hv'⟩
      · rename_i hnone
        rw [hnone] at hconcrete
        have hnone' : wanted.concrete? u.definition = none := by simpa using hconcrete.symm
        simp only [hnone', ← halias] at ha'
        split at ha
        · cases ha
        · rename_i next hnext
          simp only [hnext] at ha'
          split at ha
          · cases ha
          · split at ha'
            · cases ha'
            · exact ih ha ha'

/-- What a reference to a param names is the same. -/
theorem param (h : r.Mirrors r') {item : ParamItem} {p p' : Param} (hp : r.param item = .ok p)
    (hp' : r'.param item = .ok p') : p = p' := by
  cases item with
  | inline q => exact Except.ok.inj (hp.symm.trans hp')
  | ref ref id =>
    obtain ⟨a, ha, rfl⟩ := Result.map_ok.1 hp
    obtain ⟨a', ha', rfl⟩ := Result.map_ok.1 hp'
    obtain ⟨t, t', htt, -, -, hvalue, hvalue'⟩ := h.followFrom (fun d d' hd => by
      cases hd <;> exact ⟨rfl, rfl⟩) ha ha'
    have hdef := htt.moved.definition
    generalize t.definition = d, t'.definition = d' at hdef hvalue hvalue'
    cases hdef with
    | param item => exact Option.some.inj (hvalue.symm.trans hvalue')
    | _ => cases hvalue

/-- Params in another order are the same params in another order. -/
theorem params (h : r.Mirrors r') {items items' : List ParamItem} (hperm : items.Perm items')
    {ps ps' : List Param} (hps : items.mapM r.param = .ok ps)
    (hps' : items'.mapM r'.param = .ok ps') : ps.Perm ps' := by
  obtain ⟨qs, hqs, hqs'⟩ := List.perm_comp_forall₂ hperm (Result.mapM_ok.1 hps')
  have hsame : ps = qs := by
    replace hps := Result.mapM_ok.1 hps
    clear hqs' hps' hperm
    induction hps generalizing qs with
    | nil =>
      cases hqs
      rfl
    | cons hp _ ih =>
      cases hqs with
      | cons hq hqs => rw [h.param hp hq, ih _ hqs]
  exact hsame ▸ hqs'

/-- A method and its reordered counterpart stand at one place. -/
theorem method (h : r.Mirrors r') {place : Place} {item item' : MethodItem}
    (hitem : item.Reordered item') {m m' : Placed Method} (hm : r.method place item = .ok m)
    (hm' : r'.method place item' = .ok m') : m.place = m'.place ∧ m.value.Reordered m'.value := by
  cases hitem with
  | inline hmethod =>
    rw [← Except.ok.inj hm, ← Except.ok.inj hm']
    exact ⟨rfl, hmethod⟩
  | ref ref =>
    obtain ⟨t, t', htt, hplace, hplace', hvalue, hvalue'⟩ := h.followFrom (fun d d' hd => by
      cases hd <;> exact ⟨rfl, rfl⟩) hm hm'
    have hstays : ∀ item, t.definition ≠ .representation item := by
      intro item hdef
      rw [hdef] at hvalue
      cases hvalue
    refine ⟨hplace ▸ hplace' ▸ htt.place_eq hstays, ?_⟩
    have hdef := htt.moved.definition
    generalize t.definition = d, t'.definition = d' at hdef hvalue hvalue'
    cases hdef with
    | method hmethod =>
      rw [← Option.some.inj hvalue, ← Option.some.inj hvalue']
      exact hmethod
    | _ => cases hvalue

/-- A representation, or what a reference names, and its reordered counterpart. -/
theorem representation (h : r.Mirrors r') {place place' : Place} {item item' : RepresentationItem}
    (hitem : item.Reordered item') (hplace : place.Moved place') {a a' : Placed Representation}
    (ha : r.representation place item = .ok a) (ha' : r'.representation place' item' = .ok a') :
    a.Reordered a' := by
  cases hitem with
  | inline hrep =>
    rw [← Except.ok.inj ha, ← Except.ok.inj ha']
    exact ⟨hrep, hplace⟩
  | ref ref id =>
    obtain ⟨t, t', htt, hplace, hplace', hvalue, hvalue'⟩ := h.followFrom (fun d d' hd => by
      cases hd with
      | representation hitem => cases hitem <;> exact ⟨rfl, rfl⟩
      | _ => exact ⟨rfl, rfl⟩) ha ha'
    refine ⟨?_, hplace ▸ hplace' ▸ htt.place_moved⟩
    have hdef := htt.moved.definition
    generalize t.definition = d, t'.definition = d' at hdef hvalue hvalue'
    cases hdef with
    | representation hitem =>
      cases hitem with
      | inline hrep =>
        rw [← Option.some.inj hvalue, ← Option.some.inj hvalue']
        exact hrep
      | ref => cases hvalue
    | _ => cases hvalue

end Resolution.Mirrors

/-! ## Containers -/

/-- A container whose methods are reordered, at the same place and with the same words. -/
structure Container.Reordered (c c' : Container) : Prop where
  place : c.place = c'.place
  segments : c.here.segments = c'.here.segments
  methods : List.Forall₂ MethodItem.Reordered c.here.holder.methods c'.here.holder.methods

/-- Resources side by side have containers side by side. -/
def Resource.SideBySide (a b : Resource) : Prop :=
  ∀ above above' inherited place,
    List.Forall₂ Container.Reordered (a.containers above inherited place)
      (b.containers above' inherited place)

/-- Containers below resources that go side by side are reordered one by one. -/
theorem containersBelow_sideBySide {rs rs' : List Resource}
    (h : List.Forall₂ Resource.SideBySide rs rs') (above above' : List Station)
    (inherited : List String) (place : Place) (n : Nat) :
    List.Forall₂ Container.Reordered (containersBelow above inherited place n rs)
      (containersBelow above' inherited place n rs') := by
  induction h generalizing n with
  | nil => exact .nil
  | cons hfirst _ ih =>
    rw [containersBelow, containersBelow]
    exact List.rel_append (hfirst above above' inherited _) (ih (n + 1))

theorem Resource.Reordered.sideBySide {a b : Resource} (h : a.Reordered b) : a.SideBySide b := by
  refine h.byLevels fun a b h below above above' inherited place => ?_
  cases h with
  | mk id path _ _ _ methods =>
    have hsegments : a.segments = b.segments := by
      rw [Resource.segments, id, path, Resource.segments]
    rw [Resource.containers_eq, Resource.containers_eq, id, hsegments]
    exact .cons ⟨rfl, rfl, methods⟩ (containersBelow_sideBySide below _ _ _ _ _)

theorem containersBelow_reordered {rs rs' : List Resource}
    (h : List.Forall₂ Resource.Reordered rs rs') (above above' : List Station)
    (inherited : List String) (place : Place) (n : Nat) :
    List.Forall₂ Container.Reordered (containersBelow above inherited place n rs)
      (containersBelow above' inherited place n rs') :=
  containersBelow_sideBySide (h.imp fun _ _ hr => hr.sideBySide) above above' inherited place n

/-- The containers of a reordered type are reordered. -/
theorem ResourceType.Reordered.containers {a b : ResourceType} (h : a.Reordered b) (place : Place) :
    List.Forall₂ Container.Reordered (a.containers place) (b.containers place) := by
  rw [ResourceType.containers, ResourceType.containers, h.id]
  exact .cons ⟨rfl, rfl, h.methods⟩ (containersBelow_reordered h.resources _ _ _ _ _)

/-- An element of a list with its number stands beside one with this number. -/
theorem mem_zipIdx_of_forall₂ {α β : Type} {R : α → β → Prop} {xs : List α}
    {ys : List β} {x : α} {n : Nat} (h : List.Forall₂ R xs ys) (hx : (x, n) ∈ xs.zipIdx) :
    ∃ y, (y, n) ∈ ys.zipIdx ∧ R x y := by
  obtain ⟨y, hy, hxy⟩ := getElem?_of_forall₂ h (getElem?_of_mem_zipIdx hx)
  exact ⟨y, mem_zipIdx_of_getElem? hy, hxy⟩

/-- Each container of a description has one in the reordered description. -/
theorem Application.Reordered.resourceContainers {a b : Application}
    (h : a.Reordered b) {c : Container} (hc : c ∈ a.resourceContainers) :
    ∃ c' ∈ b.resourceContainers, c.Reordered c' := by
  obtain ⟨⟨group, n⟩, hmem, hc⟩ := List.mem_flatMap.1 hc
  obtain ⟨group', hmem', hgroup⟩ := mem_zipIdx_of_forall₂ h.resources hmem
  rw [h.baseUri] at hc
  obtain ⟨c', hc', hcc⟩ :=
    exists_right_of_forall₂ (containersBelow_reordered hgroup.resources [] [] [] _ 0) hc
  exact ⟨c', List.mem_flatMap.2 ⟨(group', n), hmem', hc'⟩, hcc⟩

namespace Resolution.Mirrors

variable {w w' : Web} {r r' : Resolution}

/-- A resource type has its reordered counterpart, at the same place. -/
theorem exists_resourceType (h : r.Mirrors r') (hr : w.Resolves r) (hr' : w'.Resolves r')
    {t : Placed ResourceType} (ht : t ∈ r.resourceTypes) :
    ∃ t' ∈ r'.resourceTypes, t.place = t'.place ∧ t.value.Reordered t'.value := by
  rcases List.mem_append.1 (mem_of_mem_distinctPlaces ht) with ht | ht
  · -- the type stands in the description itself
    obtain ⟨⟨type, n⟩, hmem, rfl⟩ := List.mem_map.1 ht
    obtain ⟨type', hmem', htype⟩ := mem_zipIdx_of_forall₂ h.app.resourceTypes hmem
    have hstands : w'.Stands ⟨r'.app.baseUri, [.resourceType n]⟩ (.resourceType type') :=
      stands_top hr' (by rw [Part.child?, getElem?_of_mem_zipIdx hmem']; rfl)
    obtain ⟨q, hq, hplace⟩ : ∃ q ∈ r'.resourceTypes,
        q.place = ⟨r'.app.baseUri, [.resourceType n]⟩ :=
      exists_mem_distinctPlaces (p := ⟨type', ⟨r'.app.baseUri, [.resourceType n]⟩⟩)
        (List.mem_append_left _ (List.mem_map.2 ⟨(type', n), hmem', rfl⟩))
    have hqstands := stands_resourceTypes hr' q hq
    rw [hplace] at hqstands
    refine ⟨q, hq, by rw [hplace, h.app.baseUri], ?_⟩
    rwa [Part.resourceType.inj (stands_unique hqstands hstands)]
  · -- a reference names it
    obtain ⟨⟨href, target⟩, hmem, ht⟩ := List.mem_filterMap.1 ht
    have hlookup := lookup_of_mem hr.keys_nodup hmem
    obtain ⟨target', hlookup', htt⟩ := optionRel_some (h.targets href) hlookup
    obtain ⟨ref, -, rfl⟩ := (hr.mem_keys href).1 (mem_keys_of_lookup.2 ⟨target, hlookup⟩)
    simp only at ht
    split at ht
    · rename_i type hdef
      split at ht
      · cases ht
      · rw [← Option.some.inj ht]
        have hplace := htt.place_eq fun item hitem => by
          rw [hdef] at hitem
          cases hitem
        have hmoved := htt.moved.definition
        rw [hdef] at hmoved
        cases hdef' : target'.definition with
        | resourceType type' =>
          rw [hdef'] at hmoved
          cases hmoved with
          | resourceType htype =>
            have hnames : r'.resourceType ref = .ok ⟨type', target'.place⟩ := by
              rw [Resolution.resourceType, Resolution.deref, hlookup']
              simp only [bind, Except.bind, hdef']
              rfl
            exact ⟨_, mem_resourceTypes hr' hnames, hplace, htype⟩
        | _ =>
          rw [hdef'] at hmoved
          cases hmoved
    · cases ht

/-- A container has its reordered counterpart. -/
theorem exists_container (h : r.Mirrors r') (hr : w.Resolves r)
    (hr' : w'.Resolves r') {c : Container} (hc : c ∈ r.containers) :
    ∃ c' ∈ r'.containers, c.Reordered c' := by
  rcases List.mem_append.1 hc with hc | hc
  · obtain ⟨t, ht, hc⟩ := List.mem_flatMap.1 hc
    obtain ⟨t', ht', hplace, htype⟩ := h.exists_resourceType hr hr' ht
    rw [hplace] at hc
    obtain ⟨c', hc', hcc⟩ := exists_right_of_forall₂ (htype.containers t'.place) hc
    exact ⟨c', List.mem_append_left _ (List.mem_flatMap.2 ⟨t', ht', hc'⟩), hcc⟩
  · obtain ⟨c', hc', hcc⟩ := h.app.resourceContainers hc
    exact ⟨c', List.mem_append_right _ hc', hcc⟩

end Resolution.Mirrors

/-! ## Usages -/

/-- A usage of a reordered representation by the same method of the same container. -/
structure Usage.Reordered (u u' : Usage) : Prop where
  representation : u.representation.Reordered u'.representation
  container : u.container.Reordered u'.container
  place : u.method.place = u'.method.place
  method : u.method.value.Reordered u'.method.value
  role : u.role = u'.role

/-- The place of use makes the same name. -/
theorem Usage.Reordered.site {u u' : Usage} (h : u.Reordered u') : u.site = u'.site := by
  have hlabel : u.method.value.label = u'.method.value.label := by
    rw [Method.label, Method.label, h.method.id, h.method.name]
  rw [Usage.site, Usage.site, siteName, siteName, h.container.segments, hlabel, h.role]

/-- Each item of a body has one in the reordered method, in the same role. -/
theorem exists_bodyItem {m m' : Placed Method} (hplace : m.place = m'.place)
    (h : m.value.Reordered m'.value) {x : Place × RepresentationItem × Role}
    (hx : x ∈ Resolution.bodyItems m) :
    ∃ x' ∈ Resolution.bodyItems m', x.1 = x'.1 ∧ x.2.1.Reordered x'.2.1 ∧ x.2.2 = x'.2.2 := by
  rcases List.mem_append.1 hx with hx | hx
  · have hrequest := h.request
    cases hreq : m.value.request with
    | none => simp [hreq] at hx
    | some request =>
      obtain ⟨request', hreq', hrequest⟩ := optionRel_some hrequest hreq
      rw [hreq] at hx
      obtain ⟨⟨item, n⟩, hmem, rfl⟩ := List.mem_map.1 hx
      obtain ⟨item', hmem', hitem⟩ := mem_zipIdx_of_forall₂ hrequest.representations hmem
      refine ⟨((m'.place.child .request).child (.representation n), item', .request),
        List.mem_append_left _ ?_, by rw [hplace], hitem, rfl⟩
      rw [hreq']
      exact List.mem_map.2 ⟨(item', n), hmem', rfl⟩
  · obtain ⟨⟨response, k⟩, hresponse, hx⟩ := List.mem_flatMap.1 hx
    obtain ⟨response', hresponse', hrr⟩ := mem_zipIdx_of_forall₂ h.responses hresponse
    obtain ⟨⟨item, n⟩, hmem, rfl⟩ := List.mem_map.1 hx
    obtain ⟨item', hmem', hitem⟩ := mem_zipIdx_of_forall₂ hrr.representations hmem
    refine ⟨((m'.place.child (.response k)).child (.representation n), item', .response),
      List.mem_append_right _ ?_, by rw [hplace], hitem, rfl⟩
    exact List.mem_flatMap.2 ⟨(response', k), hresponse', List.mem_map.2 ⟨(item', n), hmem', rfl⟩⟩

/-- All items of all methods of all containers are used. -/
theorem Resolution.mem_usages {r : Resolution} {us : List Usage}
    (h : r.usages = .ok us) {c : Container} (hc : c ∈ r.containers) :
    ∃ ms, r.methods c = .ok ms ∧ ∀ m ∈ ms, ∀ x ∈ bodyItems m, ∃ rep,
      r.representation x.1 x.2.1 = .ok rep ∧ ⟨rep, c, m, x.2.2⟩ ∈ us := by
  obtain ⟨uss, huss, rfl⟩ := Result.map_ok.1 (usages_flatten.1 h)
  obtain ⟨cs, hcs, husage⟩ := exists_right_of_forall₂ (Result.mapM_ok.1 huss) hc
  obtain ⟨ms, hms, husage⟩ := Result.bind_ok.1 husage
  obtain ⟨mss, hmss, rfl⟩ := Result.map_ok.1 husage
  refine ⟨ms, hms, fun m hm x hx => ?_⟩
  obtain ⟨xs, hxs, husage⟩ := exists_right_of_forall₂ (Result.mapM_ok.1 hmss) hm
  obtain ⟨yss, hyss, rfl⟩ := Result.map_ok.1 husage
  obtain ⟨ys, hys, husage⟩ := exists_right_of_forall₂ (Result.mapM_ok.1 hyss) hx
  obtain ⟨rep, hrep, rfl⟩ := Result.map_ok.1 husage
  refine ⟨rep, hrep, List.mem_flatten.2 ⟨_, hcs, List.mem_flatten.2 ⟨_, hxs, ?_⟩⟩⟩
  exact List.mem_flatten.2 ⟨_, hys, List.mem_singleton_self _⟩

namespace Resolution.Mirrors

variable {w w' : Web} {r r' : Resolution}

/-- The methods of a container have their reordered counterparts, at the same places. -/
theorem exists_method (h : r.Mirrors r') {c c' : Container} (hcc : c.Reordered c')
    {ms ms' : List (Placed Method)} (hms : r.methods c = .ok ms) (hms' : r'.methods c' = .ok ms')
    {m : Placed Method} (hm : m ∈ ms) :
    ∃ m' ∈ ms', m.place = m'.place ∧ m.value.Reordered m'.value := by
  obtain ⟨⟨item, n⟩, hmem, hitem⟩ := (Result.mem_mapM_ok hms).1 hm
  obtain ⟨item', hmem', hitems⟩ := mem_zipIdx_of_forall₂ hcc.methods hmem
  obtain ⟨m', hm', hitem'⟩ := exists_right_of_forall₂ (Result.mapM_ok.1 hms') hmem'
  rw [← hcc.place] at hitem'
  exact ⟨m', hm', h.method hitems hitem hitem'⟩

/-- A usage has its reordered counterpart. -/
theorem exists_usage (h : r.Mirrors r') (hr : w.Resolves r) (hr' : w'.Resolves r')
    {us us' : List Usage} (hus : r.usages = .ok us) (hus' : r'.usages = .ok us')
    {u : Usage} (hu : u ∈ us) : ∃ u' ∈ us', u.Reordered u' := by
  obtain ⟨c, hc, ms, hms, m, hm, x, hx, rep, hrep, rfl⟩ := of_mem_usages hus hu
  obtain ⟨c', hc', hcc⟩ := h.exists_container hr hr' hc
  obtain ⟨ms', hms', hall⟩ := mem_usages hus' hc'
  obtain ⟨m', hm', hplace, hmm⟩ := h.exists_method hcc hms hms' hm
  obtain ⟨x', hx', hplaces, hitems, hrole⟩ := exists_bodyItem hplace hmm hx
  obtain ⟨rep', hrep', husage⟩ := hall m' hm' x' hx'
  have hrepr : rep.Reordered rep' :=
    h.representation hitems ⟨congrArg Place.document hplaces, .inl (congrArg Place.steps hplaces)⟩
      hrep hrep'
  exact ⟨⟨rep', c', m', x'.2.2⟩, husage, hrepr, hcc, hplace, hmm, hrole⟩

end Resolution.Mirrors

end Wadl
