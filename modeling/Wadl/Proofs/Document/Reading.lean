import Mathlib.Data.List.Duplicate
import Wadl.Proofs.Document.Sound
import Wadl.Proofs.Runs
import Wadl.Proofs.Xml.Characters

/-!
# Descriptions that are read are sound

Each reader of a part gives a sound part (`readParam_sound`, `readResponse_sound` and so on), and so
what is read as a whole is sound (`readDescription_sound`). What is assumed of the texts and the
documentation is `Criteria.Fits`: the texts of the tree satisfy the criterion, and so does
documentation that is read from them, as far as a further condition holds of it.
-/

namespace Wadl

/-! ## Texts that differ -/

namespace Reader

theorem firstRepeated_eq_none :
    ∀ {seen xs : List String}, firstRepeated seen xs = none ↔ xs.Nodup ∧ ∀ x ∈ xs, x ∉ seen
  | seen, [] => by simp [firstRepeated]
  | seen, x :: xs => by
    unfold firstRepeated
    rw [List.nodup_cons, List.forall_mem_cons]
    by_cases hx : x ∈ seen
    · simp [hx]
    · rw [if_neg (by simpa using hx), firstRepeated_eq_none]
      constructor
      · rintro ⟨hxs, hseen⟩
        refine ⟨⟨fun hmem => hseen x hmem List.mem_cons_self, hxs⟩, hx, fun y hy hmem => ?_⟩
        exact hseen y hy (List.mem_cons_of_mem x hmem)
      · rintro ⟨⟨hmem, hxs⟩, -, hseen⟩
        refine ⟨hxs, fun y hy hy' => ?_⟩
        rcases List.mem_cons.1 hy' with rfl | hy'
        · exact hmem hy
        · exact hseen y hy hy'

/-- No value is reported as repeated just if the values are distinct. -/
theorem nodup_iff_firstRepeated {xs : List String} : firstRepeated [] xs = none ↔ xs.Nodup := by
  rw [firstRepeated_eq_none]
  simp

/-- A text that is found to be repeated stands twice, or was seen before. -/
theorem firstRepeated_eq_some {s : String} :
    ∀ {seen xs : List String}, firstRepeated seen xs = some s →
    s ∈ seen ∧ s ∈ xs ∨ List.Duplicate s xs
  | seen, [], h => by cases h
  | seen, x :: xs, h => by
    unfold firstRepeated at h
    split at h
    · rename_i hx
      obtain rfl := Option.some.inj h
      exact .inl ⟨List.contains_iff_mem.1 hx, List.mem_cons_self⟩
    · rcases firstRepeated_eq_some h with ⟨hseen, hmem⟩ | htwice
      · rcases List.mem_cons.1 hseen with rfl | hseen
        · exact .inr hmem.duplicate_cons_self
        · exact .inl ⟨hseen, List.mem_cons_of_mem x hmem⟩
      · exact .inr (htwice.duplicate_cons x)

theorem firstDoubled_eq_some {s : String} :
    ∀ {xs : List String}, firstDoubled xs = some s → List.Duplicate s xs
  | [], h => by cases h
  | x :: xs, h => by
    unfold firstDoubled at h
    split at h
    · rename_i hx
      obtain rfl := Option.some.inj h
      exact List.Mem.duplicate_cons_self (List.contains_iff_mem.1 hx)
    · exact (firstDoubled_eq_some h).duplicate_cons x

/-- The same when values are compared with those to come. -/
theorem nodup_iff_firstDoubled : ∀ {xs : List String}, firstDoubled xs = none ↔ xs.Nodup
  | [] => by simp [firstDoubled]
  | x :: xs => by
    unfold firstDoubled
    rw [List.nodup_cons]
    by_cases hx : x ∈ xs
    · simp [hx]
    · rw [if_neg (by simpa using hx), nodup_iff_firstDoubled]
      simp [hx]

/-! ## Elements and attributes -/

/-- Attribute values and text of an element, and of all in it, satisfy a condition. -/
def Element.Holds (V : String → Prop) (e : Element) : Prop :=
  (Xml.Node.element e.tag e.content).Holds V

/-- What holds of all texts of an element holds within it, and of each of its attributes. -/
theorem Element.Holds.inside {V : String → Prop} {e : Element} (h : e.Holds V) :
    ∀ n ∈ e.content, n.Holds V := by
  cases h with
  | element _ hinside => exact hinside

theorem Element.Holds.attribute? {V : String → Prop} {e : Element} (h : e.Holds V)
    {name : Xml.Name} : ∀ s, e.tag.attribute? name = some s → V s := by
  intro s hs
  cases h with
  | element hattributes _ =>
    obtain ⟨before, after, hsplit, -⟩ := List.lookup_eq_some_iff.1 hs
    refine hattributes (name, s) ?_
    rw [hsplit]
    exact List.mem_append_right _ List.mem_cons_self

theorem Element.Holds.get? {V : String → Prop} {e : Element} (h : e.Holds V) {attr : String} :
    ∀ s, e.get? attr = some s → V s := h.attribute?

theorem Element.Holds.getD {V : String → Prop} {e : Element} (h : e.Holds V) {attr default : String}
    (hdefault : V default) : V ((e.get? attr).getD default) := by
  cases hget : e.get? attr with
  | none => exact hdefault
  | some s => exact h.get? s hget

/-- The item that a piece of the content is, if it is one. -/
def itemOf? : Xml.Node → Option (ElementKind × Element)
  | .element tag content =>
    if tag.name.label = ElementKind.doc.word then some (.doc, ⟨tag, content⟩)
    else if !tag.name.isWadl then none
    else (ElementKind.ofWord? tag.name.label).map fun kind => (kind, ⟨tag, content⟩)
  | _ => none

/-- The children that belong to the description are told one by one. -/
theorem filterMap_of_items {pos : Position} {parent : ElementKind} :
    ∀ {content : List Xml.Node} {found : List (ElementKind × Element)},
      Yields (items pos parent content) found → content.filterMap itemOf? = found
  | [], found, h => h.pure
  | .element tag inside :: rest, found, h => by
    have hitem : ∀ {kind : ElementKind},
        Yields (do return (kind, Element.mk tag inside) :: (← items pos parent rest)) found →
          (kind, Element.mk tag inside) :: rest.filterMap itemOf? = found := by
      intro kind h
      obtain ⟨more, hmore, h⟩ := h.bind
      rw [filterMap_of_items hmore]
      exact h.pure
    simp only [items] at h
    rw [List.filterMap_cons, itemOf?]
    split at h
    · rename_i hdoc
      rw [if_pos hdoc]
      exact hitem h
    · rename_i hdoc
      rw [if_neg hdoc]
      split at h
      · rename_i hforeign
        obtain ⟨_, _, h⟩ := h.bind
        rw [if_pos hforeign]
        exact filterMap_of_items h
      · rename_i hwadl
        rw [if_neg hwadl]
        split at h
        · rename_i kind hkind
          rw [hkind]
          split at h
          · exact hitem h
          · exact absurd h not_yields_throw
        · rename_i hnone
          rw [hnone]
          split at h
          · exact absurd h not_yields_throw
          · obtain ⟨_, _, h⟩ := h.bind
            exact filterMap_of_items h
  | .text _ :: rest, found, h => by
    simp only [items] at h
    exact (filterMap_of_items h : rest.filterMap itemOf? = found)
  | .comment _ :: rest, found, h => by
    simp only [items] at h
    exact (filterMap_of_items h : rest.filterMap itemOf? = found)
  | .instruction _ :: rest, found, h => by
    simp only [items] at h
    exact (filterMap_of_items h : rest.filterMap itemOf? = found)

/-- An item is the element that it was made of. -/
theorem node_of_itemOf? {n : Xml.Node} {kind : ElementKind} {e : Element}
    (h : itemOf? n = some (kind, e)) : n = .element e.tag e.content := by
  cases n with
  | element tag content =>
    rw [itemOf?] at h
    split at h
    · obtain ⟨-, rfl⟩ := Prod.mk.inj (Option.some.inj h)
      rfl
    · split at h
      · cases h
      · obtain ⟨k, -, hk⟩ := Option.map_eq_some_iff.1 h
        obtain ⟨-, rfl⟩ := Prod.mk.inj hk
        rfl
  | text s => cases h
  | comment s => cases h
  | instruction s => cases h

/-- The children that belong to the description are elements of the content. -/
theorem mem_items {pos : Position} {parent : ElementKind} {content : List Xml.Node}
    {found : List (ElementKind × Element)} (h : Yields (items pos parent content) found) :
    ∀ p ∈ found, .element p.2.tag p.2.content ∈ content := by
  intro p hp
  rw [← filterMap_of_items h] at hp
  obtain ⟨n, hn, hitem⟩ := List.mem_filterMap.1 hp
  exact node_of_itemOf? hitem ▸ hn

/-- All items satisfy a condition on their texts. -/
def AllHold (V : String → Prop) (found : List (ElementKind × Element)) : Prop :=
  ∀ p ∈ found, p.2.Holds V

/-- What holds of all texts of an element holds of the items in it. -/
theorem allHold_items {V : String → Prop} {pos : Position} {parent : ElementKind} {e : Element}
    {found : List (ElementKind × Element)} (he : e.Holds V)
    (h : Yields (items pos parent e.content) found) : AllHold V found :=
  fun p hp => he.inside _ (mem_items h p hp)

theorem AllHold.ofKind {V : String → Prop} {found : List (ElementKind × Element)}
    (h : AllHold V found) (kind : ElementKind) : ∀ e ∈ ofKind kind found, e.Holds V := by
  intro e he
  obtain ⟨⟨k, e'⟩, hmem, hsome⟩ := List.mem_filterMap.1 he
  have hk : k = kind ∧ e' = e := by simpa using hsome
  rw [← hk.2]
  exact h (k, e') hmem

theorem yields_required {pos : Position} {e : Element} {kind : ElementKind} {attr value : String}
    (h : Yields (required pos e kind attr) value) : e.get? attr = some value := by
  unfold required at h
  split at h
  · rename_i found hfound
    rw [hfound, h.pure]
  · exact absurd h not_yields_throw

/-- Going on past a refusal means that there was nothing to refuse. -/
theorem yields_refuse {α : Type} {found : Option α} {error : α → DocumentError} {u : Unit}
    (h : Yields (refuse found error) u) : found = none := by
  unfold refuse at h
  split at h
  · exact absurd h not_yields_throw
  · rfl

/-- A definition at the top has an identifier. -/
theorem yields_requireId {inside : Position} {location kind : ElementKind} {e : Element} {u : Unit}
    (h : Yields (requireId inside location e kind) u) (hlocation : location = .application) :
    (e.get? "id").isSome = true := by
  unfold requireId at h
  rw [if_pos hlocation] at h
  obtain ⟨id, hid, -⟩ := Yields.map h
  rw [yields_required hid]
  rfl

end Reader

/-! ## Criteria -/

theorem Criteria.texts_nil (c : Criteria) : c.Texts [] := by
  intro s hs
  cases hs

theorem Criteria.texts_cons {c : Criteria} {t : Option String} {ts : List (Option String)} :
    c.Texts (t :: ts) ↔ (∀ s, t = some s → c.text s) ∧ c.Texts ts := by
  unfold Texts
  simp [or_imp, forall_and, eq_comm]

/-- What is read of a tree whose texts satisfy the criterion satisfies it; documentation does so if
it also satisfies `P`. -/
structure Criteria.Fits (c : Criteria) (P : Doc → Prop) : Prop where
  type : c.text "xs:string"
  queryType : c.text formMediaType
  word : ∀ {s w : String}, c.text s → w ∈ wordsOf s → c.text w
  doc : ∀ {e : Reader.Element}, e.Holds c.text → P (Reader.readDoc e) → c.doc (Reader.readDoc e)

namespace Reader

section Parts

variable {c : Criteria} {P : Doc → Prop} {pos : Position}

/-! ## Params and representations -/

/-- Documentation fits if its content does; the lemmas below go up from here, one for each element
that is read. -/
theorem readDocs_sound (hc : c.Fits P) {found : List (ElementKind × Element)}
    (hfound : AllHold c.text found) (hdocs : ∀ d ∈ readDocs found, P d) :
    ∀ d ∈ readDocs found, c.doc d := by
  intro d hd
  obtain ⟨e, he, rfl⟩ := List.mem_map.1 hd
  exact hc.doc (hfound.ofKind .doc e he) (hdocs _ hd)

/-- References are absolute and of the kind that is asked for. -/
theorem reference_sound {kind : DefinitionKind} {href : String} {r : Reference}
    (h : Yields (reference pos kind href) r) (hbase : pos.base = c.base) (hhref : c.text href) :
    r.Sound c kind := by
  unfold reference at h
  split at h
  · rename_i uri huri
    rw [hbase] at huri
    rw [← h.pure]
    exact ⟨rfl, href, hhref, huri⟩
  · exact absurd h not_yields_throw

/-- Options that are read are sound. -/
theorem readOption_sound (hc : c.Fits P) {e : Element} {o : ParamOption}
    (h : Yields (readOption pos e) o) (he : e.Holds c.text) (hdocs : ∀ d ∈ o.docs, P d) :
    o.Sound c := by
  obtain ⟨value, hvalue, h⟩ := h.bind
  obtain ⟨found, hfound, h⟩ := h.bind
  obtain rfl := h.pure
  constructor
  · simp only [Criteria.texts_cons, Option.some.injEq, forall_eq']
    exact ⟨he.get? value (yields_required hvalue), he.get?, c.texts_nil⟩
  · exact readDocs_sound hc (allHold_items he hfound) hdocs

theorem readTarget_sound {href : Option String} {target : Option Reference}
    (h : Yields (readTarget pos href) target) (hbase : pos.base = c.base)
    (hhref : ∀ s, href = some s → c.text s) : ∀ r, target = some r → r.Sound c .resourceType := by
  rintro r rfl
  unfold readTarget at h
  split at h
  · split at h
    · cases h.pure
    · obtain ⟨r', hr', heq⟩ := h.map
      obtain rfl := Option.some.inj heq
      exact reference_sound hr' hbase (hhref _ rfl)
  · cases h.pure

/-- Links that are read are sound, their targets included. -/
theorem readLink_sound (hc : c.Fits P) {e : Element} {l : Link} (h : Yields (readLink pos e) l)
    (hbase : pos.base = c.base) (he : e.Holds c.text) (hdocs : ∀ d ∈ l.docs, P d) : l.Sound c := by
  obtain ⟨target, htarget, h⟩ := h.bind
  obtain ⟨found, hfound, h⟩ := h.bind
  obtain rfl := h.pure
  constructor
  · simp only [Criteria.texts_cons]
    exact ⟨he.get?, he.get?, c.texts_nil⟩
  · exact readTarget_sound htarget hbase he.get?
  · exact readDocs_sound hc (allHold_items he hfound) hdocs

/-- Params that are read are sound and keep the identifier they were given. -/
theorem readParamBody_sound (hc : c.Fits P) {location : ElementKind} {e : Element} {p : Param}
    (h : Yields (readParamBody pos location e) p) (hbase : pos.base = c.base) (he : e.Holds c.text)
    (hdocs : ∀ d ∈ p.allDocs, P d) : p.Sound c ∧ p.id = e.get? "id" := by
  simp only [readParamBody] at h
  obtain ⟨name, hname, h⟩ := h.bind
  obtain ⟨style, -, h⟩ := h.bind
  obtain ⟨found, hfound, h⟩ := h.bind
  obtain ⟨options, hoptions, h⟩ := h.bind
  obtain ⟨_, hvalues, h⟩ := h.bind
  obtain ⟨required, -, h⟩ := h.bind
  obtain ⟨repeating, -, h⟩ := h.bind
  obtain ⟨links, hlinks, h⟩ := h.bind
  obtain rfl := h.pure
  simp only [Param.allDocs, List.forall_mem_append, List.forall_mem_flatMap] at hdocs
  obtain ⟨⟨hown, hoptionDocs⟩, hlinkDocs⟩ := hdocs
  have hall := allHold_items he hfound
  refine ⟨?_, rfl⟩
  constructor
  · simp only [Criteria.texts_cons, Option.some.injEq, forall_eq']
    exact ⟨he.get? name (yields_required hname), he.get?, he.getD hc.type,
      he.get?, he.get?, he.get?, c.texts_nil⟩
  · intro o ho
    obtain ⟨e', he', hread⟩ := hoptions.mem_mapM ho
    exact readOption_sound hc hread (hall.ofKind .option e' he') (hoptionDocs o ho)
  · exact nodup_iff_firstDoubled.1 (yields_refuse hvalues)
  · intro l hl
    obtain ⟨e', he', hread⟩ := hlinks.mem_mapM hl
    exact readLink_sound hc hread hbase (hall.ofKind .link e' he') (hlinkDocs l hl)
  · exact readDocs_sound hc hall hown

theorem aliasId_text {e : Element} (he : e.Holds c.text) (location : ElementKind) :
    c.Texts [aliasId e location] := by
  refine Criteria.texts_cons.2 ⟨?_, c.texts_nil⟩
  unfold aliasId
  split
  · exact he.get?
  · intro s hs
    cases hs

/-- So are param items, whether defined in place or referred to. -/
theorem readParam_sound (hc : c.Fits P) {location : ElementKind} {e : Element} {item : ParamItem}
    (h : Yields (readParam pos location e) item) (hbase : pos.base = c.base) (he : e.Holds c.text)
    (hdocs : ∀ d ∈ item.allDocs, P d) : item.Sound c location := by
  simp only [readParam] at h
  obtain ⟨_, hid, h⟩ := h.bind
  have hid := yields_requireId hid
  split at h
  · rename_i href hhref
    obtain ⟨r, hr, h⟩ := h.bind
    obtain rfl := h.pure
    have hr := reference_sound hr hbase (he.get? href hhref)
    constructor
    · rintro p ⟨⟩
    · rintro r' id ⟨⟩
      exact ⟨hr, aliasId_text he location, fun hlocation => if_neg hlocation⟩
    · intro hlocation
      rw [ParamItem.id, aliasId, if_pos hlocation]
      exact hid hlocation
  · obtain ⟨p, hp, h⟩ := h.bind
    obtain rfl := h.pure
    obtain ⟨hsound, hpid⟩ := readParamBody_sound hc hp hbase he hdocs
    constructor
    · rintro p' ⟨⟩
      exact hsound
    · rintro r id ⟨⟩
    · intro hlocation
      rw [ParamItem.id, hpid]
      exact hid hlocation

theorem readParams_sound (hc : c.Fits P) {location : ElementKind}
    {found : List (ElementKind × Element)} {params : List ParamItem}
    (h : Yields (readParams pos location found) params) (hbase : pos.base = c.base)
    (hfound : AllHold c.text found) (hdocs : ∀ p ∈ params, ∀ d ∈ p.allDocs, P d) :
    ParamsSound c location params := by
  simp only [readParams] at h
  obtain ⟨items, hitems, h⟩ := h.bind
  obtain ⟨_, hnames, h⟩ := h.bind
  obtain rfl := h.pure
  constructor
  · intro p hp
    obtain ⟨e, he, hread⟩ := hitems.mem_mapM hp
    exact readParam_sound hc hread hbase (hfound.ofKind .param e he) (hdocs p hp)
  · exact nodup_iff_firstRepeated.1 (yields_refuse hnames)

/-- Representations that are read are sound and keep the identifier they were given. -/
theorem readRepresentationBody_sound (hc : c.Fits P) {e : Element} {r : Representation}
    (h : Yields (readRepresentationBody pos e) r) (hbase : pos.base = c.base) (he : e.Holds c.text)
    (hdocs : ∀ d ∈ (RepresentationItem.inline r).allDocs, P d) :
    r.Sound c ∧ r.id = e.get? "id" := by
  obtain ⟨found, hfound, h⟩ := h.bind
  obtain ⟨params, hparams, h⟩ := h.bind
  obtain rfl := h.pure
  simp only [RepresentationItem.allDocs, List.forall_mem_append, List.forall_mem_flatMap] at hdocs
  obtain ⟨hown, hparamDocs⟩ := hdocs
  have hall := allHold_items he hfound
  refine ⟨?_, rfl⟩
  constructor
  · simp only [Criteria.texts_cons]
    exact ⟨he.get?, he.get?, he.get?, he.get?, c.texts_nil⟩
  · exact readParams_sound hc hparams hbase hall hparamDocs
  · exact readDocs_sound hc hall hown

theorem readRepresentation_sound (hc : c.Fits P) {location : ElementKind} {e : Element}
    {item : RepresentationItem} (h : Yields (readRepresentation pos location e) item)
    (hbase : pos.base = c.base) (he : e.Holds c.text) (hdocs : ∀ d ∈ item.allDocs, P d) :
    item.Sound c location := by
  simp only [readRepresentation] at h
  obtain ⟨_, hid, h⟩ := h.bind
  have hid := yields_requireId hid
  split at h
  · rename_i href hhref
    obtain ⟨r, hr, h⟩ := h.bind
    obtain rfl := h.pure
    have hr := reference_sound hr hbase (he.get? href hhref)
    constructor
    · rintro p ⟨⟩
    · rintro r' id ⟨⟩
      exact ⟨hr, aliasId_text he location, fun hlocation => if_neg hlocation⟩
    · intro hlocation
      rw [RepresentationItem.id, aliasId, if_pos hlocation]
      exact hid hlocation
  · obtain ⟨r, hr, h⟩ := h.bind
    obtain rfl := h.pure
    obtain ⟨hsound, hrid⟩ := readRepresentationBody_sound hc hr hbase he hdocs
    constructor
    · rintro r' ⟨⟩
      exact hsound
    · rintro r id ⟨⟩
    · intro hlocation
      rw [RepresentationItem.id, hrid]
      exact hid hlocation

theorem readRepresentations_sound (hc : c.Fits P) {location : ElementKind}
    {found : List (ElementKind × Element)} {items : List RepresentationItem}
    (h : Yields (readRepresentations pos location found) items) (hbase : pos.base = c.base)
    (hfound : AllHold c.text found) (hdocs : ∀ r ∈ items, ∀ d ∈ r.allDocs, P d) :
    ∀ item ∈ items, item.Sound c location := by
  intro item hitem
  obtain ⟨e, he, hread⟩ := h.mem_mapM hitem
  exact readRepresentation_sound hc hread hbase
    (hfound.ofKind .representation e he) (hdocs item hitem)

/-! ## Methods -/

theorem readRequest_sound (hc : c.Fits P) {e : Element} {r : Request}
    (h : Yields (readRequest pos e) r) (hbase : pos.base = c.base) (he : e.Holds c.text)
    (hdocs : ∀ d ∈ r.allDocs, P d) : r.Sound c := by
  obtain ⟨found, hfound, h⟩ := h.bind
  obtain ⟨params, hparams, h⟩ := h.bind
  obtain ⟨representations, hrepresentations, h⟩ := h.bind
  obtain rfl := h.pure
  simp only [Request.allDocs, List.forall_mem_append, List.forall_mem_flatMap] at hdocs
  obtain ⟨⟨hown, hparamDocs⟩, hrepresentationDocs⟩ := hdocs
  have hall := allHold_items he hfound
  constructor
  · exact readParams_sound hc hparams hbase hall hparamDocs
  · exact readRepresentations_sound hc hrepresentations hbase hall hrepresentationDocs
  · exact readDocs_sound hc hall hown

theorem mem_mapM_option {α β : Type} {f : α → Option β} {y : β} :
    ∀ {xs : List α} {ys : List β}, xs.mapM f = some ys → y ∈ ys → ∃ x ∈ xs, f x = some y
  | [], ys, h, hy => by
    obtain rfl : [] = ys := by simpa using h
    cases hy
  | x :: xs, ys, h, hy => by
    simp only [List.mapM_cons, Option.bind_eq_bind, Option.bind_eq_some_iff, Option.pure_def,
      Option.some.injEq] at h
    obtain ⟨y', hy', ys', hys', rfl⟩ := h
    rcases List.mem_cons.1 hy with rfl | hy
    · exact ⟨x, List.mem_cons_self, hy'⟩
    · obtain ⟨x', hx', hf⟩ := mem_mapM_option hys' hy
      exact ⟨x', List.mem_cons_of_mem x hx', hf⟩

/-- Each status was read from one word of the list. -/
theorem readStatus_sound {status : String} {codes : List Int}
    (h : Yields (readStatus pos status) codes) :
    ∀ n ∈ codes, ∃ word, readInteger word = some n := by
  unfold readStatus at h
  split at h
  · rename_i found hfound
    obtain rfl := h.pure
    intro n hn
    obtain ⟨word, -, hword⟩ := mem_mapM_option hfound hn
    exact ⟨word, hword⟩
  · exact absurd h not_yields_throw

/-- Responses that are read are sound. -/
theorem readResponse_sound (hc : c.Fits P) {e : Element} {r : Response}
    (h : Yields (readResponse pos e) r) (hbase : pos.base = c.base) (he : e.Holds c.text)
    (hdocs : ∀ d ∈ r.allDocs, P d) : r.Sound c := by
  simp only [readResponse] at h
  obtain ⟨codes, hcodes, h⟩ := h.bind
  obtain ⟨found, hfound, h⟩ := h.bind
  obtain ⟨params, hparams, h⟩ := h.bind
  obtain ⟨representations, hrepresentations, h⟩ := h.bind
  obtain rfl := h.pure
  simp only [Response.allDocs, List.forall_mem_append, List.forall_mem_flatMap] at hdocs
  obtain ⟨⟨hown, hparamDocs⟩, hrepresentationDocs⟩ := hdocs
  have hall := allHold_items he hfound
  constructor
  · exact readStatus_sound hcodes
  · exact readParams_sound hc hparams hbase hall hparamDocs
  · exact readRepresentations_sound hc hrepresentations hbase hall hrepresentationDocs
  · exact readDocs_sound hc hall hown

theorem readOnlyRequest_sound (hc : c.Fits P) {es : List Element} {request : Option Request}
    (h : Yields (readOnlyRequest pos es) request) (hbase : pos.base = c.base)
    (hes : ∀ e ∈ es, e.Holds c.text) (hdocs : ∀ r, request = some r → ∀ d ∈ r.allDocs, P d) :
    ∀ r, request = some r → r.Sound c := by
  rintro r rfl
  unfold readOnlyRequest at h
  split at h
  · cases h.pure
  · obtain ⟨r', hr', heq⟩ := h.map
    obtain rfl := Option.some.inj heq
    exact readRequest_sound hc hr' hbase (hes _ (List.mem_singleton_self _)) (hdocs r' rfl)
  · exact absurd h not_yields_throw

/-- Methods that are read are sound and keep the identifier they were given. -/
theorem readMethodBody_sound (hc : c.Fits P) {e : Element} {m : Method}
    (h : Yields (readMethodBody pos e) m) (hbase : pos.base = c.base) (he : e.Holds c.text)
    (hdocs : ∀ d ∈ m.allDocs, P d) : m.Sound c ∧ m.id = e.get? "id" := by
  simp only [readMethodBody] at h
  obtain ⟨name, hname, h⟩ := h.bind
  obtain ⟨found, hfound, h⟩ := h.bind
  obtain ⟨request, hrequest, h⟩ := h.bind
  obtain ⟨responses, hresponses, h⟩ := h.bind
  obtain rfl := h.pure
  simp only [Method.allDocs, List.forall_mem_append, List.forall_mem_flatMap,
    Option.mem_toList] at hdocs
  obtain ⟨⟨hown, hrequestDocs⟩, hresponseDocs⟩ := hdocs
  have hall := allHold_items he hfound
  refine ⟨?_, rfl⟩
  constructor
  · simp only [Criteria.texts_cons, Option.some.injEq, forall_eq']
    exact ⟨he.get? name (yields_required hname), he.get?, c.texts_nil⟩
  · exact readOnlyRequest_sound hc hrequest hbase (hall.ofKind .request) hrequestDocs
  · intro r hr
    obtain ⟨e', he', hread⟩ := hresponses.mem_mapM hr
    exact readResponse_sound hc hread hbase (hall.ofKind .response e' he') (hresponseDocs r hr)
  · exact readDocs_sound hc hall hown

theorem readMethod_sound (hc : c.Fits P) {e : Element} {item : MethodItem}
    (h : Yields (readMethod pos e) item) (hbase : pos.base = c.base) (he : e.Holds c.text)
    (hdocs : ∀ d ∈ item.allDocs, P d) : item.Sound c := by
  simp only [readMethod] at h
  split at h
  · rename_i href hhref
    obtain ⟨r, hr, h⟩ := h.bind
    obtain rfl := h.pure
    constructor
    · rintro m ⟨⟩
    · rintro r' ⟨⟩
      exact reference_sound hr hbase (he.get? href hhref)
  · obtain ⟨m, hm, h⟩ := h.bind
    obtain rfl := h.pure
    constructor
    · rintro m' ⟨⟩
      exact (readMethodBody_sound hc hm hbase he hdocs).1
    · rintro r ⟨⟩

theorem readMethods_sound (hc : c.Fits P) {found : List (ElementKind × Element)}
    {methods : List MethodItem} (h : Yields (readMethods pos found) methods)
    (hbase : pos.base = c.base) (hfound : AllHold c.text found)
    (hdocs : ∀ m ∈ methods, ∀ d ∈ m.allDocs, P d) : MethodsSound c methods := by
  simp only [readMethods] at h
  obtain ⟨items, hitems, h⟩ := h.bind
  obtain ⟨_, hids, h⟩ := h.bind
  obtain rfl := h.pure
  constructor
  · intro m hm
    obtain ⟨e, he, hread⟩ := hitems.mem_mapM hm
    exact readMethod_sound hc hread hbase (hfound.ofKind .method e he) (hdocs m hm)
  · exact nodup_iff_firstRepeated.1 (yields_refuse hids)

/-- Methods at the top have an identifier besides. -/
theorem readTopMethod_sound (hc : c.Fits P) {e : Element} {m : Method}
    (h : Yields (readTopMethod pos e) m) (hbase : pos.base = c.base) (he : e.Holds c.text)
    (hdocs : ∀ d ∈ m.allDocs, P d) : m.Sound c ∧ m.id.isSome = true := by
  simp only [readTopMethod] at h
  obtain ⟨_, hid, h⟩ := h.bind
  obtain ⟨hsound, hmid⟩ := readMethodBody_sound hc h hbase he hdocs
  rw [hmid]
  exact ⟨hsound, yields_requireId hid rfl⟩

/-! ## Resources -/

/-- Resources are sound if those below them are, which take over the placeholders declared here. -/
theorem readResource_sound (hc : c.Fits P) {inherited : List String} {e : Element}
    {below : Position → List String → Reading (List Resource)} {r : Resource}
    (h : Yields (readResource pos inherited e below) r) (hbase : pos.base = c.base)
    (he : e.Holds c.text)
    (hbelow : ∀ {inside declared rs}, Yields (below inside declared) rs → inside.base = c.base →
      (∀ d ∈ resourceDocs rs, P d) → ∀ s ∈ rs, s.Sound c declared)
    (hdocs : ∀ d ∈ r.allDocs, P d) : r.Sound c inherited := by
  simp only [readResource] at h
  obtain ⟨found, hfound, h⟩ := h.bind
  obtain ⟨params, hparams, h⟩ := h.bind
  obtain ⟨methods, hmethods, h⟩ := h.bind
  obtain ⟨types, htypes, h⟩ := h.bind
  obtain ⟨resources, hresources, h⟩ := h.bind
  obtain ⟨_, hplaceholders, h⟩ := h.bind
  obtain rfl := h.pure
  simp only [Resource.allDocs, List.forall_mem_append, List.forall_mem_flatMap] at hdocs
  obtain ⟨⟨⟨hown, hparamDocs⟩, hmethodDocs⟩, hresourceDocs⟩ := hdocs
  have hall := allHold_items he hfound
  constructor
  · simp only [Criteria.texts_cons, Option.some.injEq, forall_eq']
    exact ⟨he.get?, he.get?, he.getD hc.queryType, c.texts_nil⟩
  · intro t ht
    obtain ⟨word, hword, hread⟩ := htypes.mem_mapM ht
    refine reference_sound hread hbase ⟨?_, isWord_of_mem_wordsOf hword⟩
    cases htype : e.get? "type" with
    | none =>
      rw [htype] at hword
      cases hword
    | some s =>
      rw [htype] at hword
      exact hc.word (he.get? s htype) hword
  · exact readParams_sound hc hparams hbase hall hparamDocs
  · exact readMethods_sound hc hmethods hbase hall hmethodDocs
  · exact yields_refuse hplaceholders
  · exact readDocs_sound hc hall hown
  · exact hbelow hresources hbase hresourceDocs

mutual

/-- So are resources read at any depth, by induction on the nodes. -/
theorem readIfResource_sound (hc : c.Fits P) :
    ∀ {n : Xml.Node}, n.Holds c.text → ∀ {pos : Position} {inherited : List String} {r : Resource},
      Yields (readIfResource pos inherited n) (some r) → pos.base = c.base →
      (∀ d ∈ r.allDocs, P d) →
        r.Sound c inherited
  | .element tag content, hn, pos, inherited, r, h, hbase, hdocs => by
    rw [readIfResource] at h
    split at h
    · obtain ⟨r', hr', heq⟩ := h.map
      obtain rfl := Option.some.inj heq
      have hcontent : ∀ n ∈ content, n.Holds c.text := Element.Holds.inside (e := ⟨tag, content⟩) hn
      exact readResource_sound hc hr' hbase hn (readResources_sound hc hcontent) hdocs
    · cases h.pure
  | .text _, _, _, _, _, h, _, _ => by cases h.pure
  | .comment _, _, _, _, _, h, _, _ => by cases h.pure
  | .instruction _, _, _, _, _, h, _, _ => by cases h.pure

theorem readResources_sound (hc : c.Fits P) :
    ∀ {content : List Xml.Node}, (∀ n ∈ content, n.Holds c.text) →
      ∀ {pos : Position} {inherited : List String} {rs : List Resource},
        Yields (readResources pos inherited content) rs → pos.base = c.base →
          (∀ d ∈ resourceDocs rs, P d) → ∀ r ∈ rs, r.Sound c inherited
  | [], _, pos, inherited, rs, h, _, _ => by
    rw [readResources] at h
    rw [← h.pure]
    simp
  | n :: rest, hcontent, pos, inherited, rs, h, hbase, hdocs => by
    rw [readResources] at h
    obtain ⟨first, hfirst, h⟩ := h.bind
    obtain ⟨more, hmore, h⟩ := h.bind
    obtain rfl := h.pure
    obtain ⟨hn, hrest⟩ := List.forall_mem_cons.1 hcontent
    cases first with
    | none => exact readResources_sound hc hrest hmore hbase hdocs
    | some r =>
      simp only [Option.toList_some, List.singleton_append, resourceDocs,
        List.forall_mem_append] at hdocs
      refine List.forall_mem_cons.2 ⟨?_, ?_⟩
      · exact readIfResource_sound hc hn hfirst hbase hdocs.1
      · exact readResources_sound hc hrest hmore hbase hdocs.2

end

/-- Resource types that are read are sound. -/
theorem readResourceType_sound (hc : c.Fits P) {e : Element} {t : ResourceType}
    (h : Yields (readResourceType pos e) t) (hbase : pos.base = c.base) (he : e.Holds c.text)
    (hdocs : ∀ d ∈ t.allDocs, P d) : t.Sound c := by
  simp only [readResourceType] at h
  obtain ⟨id, hid, h⟩ := h.bind
  obtain ⟨found, hfound, h⟩ := h.bind
  obtain ⟨params, hparams, h⟩ := h.bind
  obtain ⟨methods, hmethods, h⟩ := h.bind
  obtain ⟨resources, hresources, h⟩ := h.bind
  obtain rfl := h.pure
  simp only [ResourceType.allDocs, List.forall_mem_append, List.forall_mem_flatMap] at hdocs
  obtain ⟨⟨⟨hown, hparamDocs⟩, hmethodDocs⟩, hresourceDocs⟩ := hdocs
  have hall := allHold_items he hfound
  constructor
  · simp only [Criteria.texts_cons, Option.some.injEq, forall_eq']
    exact ⟨he.get? id (yields_required hid), he.getD hc.queryType, c.texts_nil⟩
  · exact readParams_sound hc hparams hbase hall hparamDocs
  · exact readMethods_sound hc hmethods hbase hall hmethodDocs
  · exact readResources_sound hc he.inside hresources hbase hresourceDocs
  · exact readDocs_sound hc hall hown

/-- Groups of resources that are read are sound. -/
theorem readGroup_sound (hc : c.Fits P) {e : Element} {g : ResourceGroup}
    (h : Yields (readGroup pos e) g) (hbase : pos.base = c.base) (he : e.Holds c.text)
    (hdocs : ∀ d ∈ resourceDocs g.resources, P d) : g.Sound c := by
  simp only [readGroup] at h
  obtain ⟨_, _, h⟩ := h.bind
  obtain ⟨resources, hresources, h⟩ := h.bind
  obtain rfl := h.pure
  constructor
  · exact Criteria.texts_cons.2 ⟨he.get?, c.texts_nil⟩
  · exact readResources_sound hc he.inside hresources hbase hdocs

theorem readGrammars_sound {e : Element} {hrefs : List String}
    (h : Yields (readGrammars pos e) hrefs) (he : e.Holds c.text) :
    ∀ href ∈ hrefs, c.text href := by
  simp only [readGrammars] at h
  obtain ⟨found, hfound, h⟩ := h.bind
  intro href hhref
  obtain ⟨child, hchild, hread⟩ := h.mem_mapM hhref
  exact ((allHold_items he hfound).ofKind .include child hchild).get? href (yields_required hread)

/-! ## The description -/

/-- An identifier that is checked is added to those that are distinct. -/
theorem yields_checkNew {kind : ElementKind} {id : Option String}
    {earlier : List (Option String)} {u : Unit} (h : Yields (checkNew pos kind id earlier) u)
    (hid : id.isSome = true) (hearlier : earlier.Nodup) : (earlier ++ [id]).Nodup := by
  obtain ⟨i, rfl⟩ := Option.isSome_iff_exists.1 hid
  have hnew := yields_refuse h
  have hnotMem : some i ∉ earlier := by simpa [Option.filter] using hnew
  rw [List.nodup_append]
  refine ⟨hearlier, List.nodup_singleton _, ?_⟩
  intro a ha b hb
  rw [List.mem_singleton.1 hb]
  rintro rfl
  exact hnotMem ha

/-- Definitions that are checked stay so with a new one after them. -/
theorem forall_mem_added {T : Type} {S : T → Prop} {id : T → Option String} {xs : List T} {x : T}
    {kind : ElementKind} {u : Unit} (hxs : ∀ y ∈ xs, S y) (hids : (xs.map id).Nodup) (hx : S x)
    (hid : (id x).isSome = true) (hnew : Yields (checkNew pos kind (id x) (xs.map id)) u) :
    (∀ y ∈ xs ++ [x], S y) ∧ ((xs ++ [x]).map id).Nodup := by
  refine ⟨List.forall_mem_append.2 ⟨hxs, List.forall_mem_singleton.2 hx⟩, ?_⟩
  rw [List.map_append, List.map_singleton]
  exact yields_checkNew hnew hid hids

/-- All documentation of a description is as it should be, kind by kind of its definitions. -/
structure DocsHold (P : Doc → Prop) (app : Application) : Prop where
  own : ∀ d ∈ app.docs, P d
  types : ∀ t ∈ app.resourceTypes, ∀ d ∈ t.allDocs, P d
  representations : ∀ r ∈ app.representations, ∀ d ∈ r.allDocs, P d
  params : ∀ p ∈ app.params, ∀ d ∈ p.allDocs, P d
  methods : ∀ m ∈ app.methods, ∀ d ∈ m.allDocs, P d
  groups : ∀ g ∈ app.resources, ∀ d ∈ resourceDocs g.resources, P d

/-- What holds of the documentation of all parts holds of all documentation. -/
theorem docsHold_iff {app : Application} : DocsHold P app ↔ ∀ d ∈ app.allDocs, P d := by
  simp only [Application.allDocs, List.forall_mem_append, List.forall_mem_flatMap]
  constructor
  · exact fun h => ⟨⟨⟨⟨⟨h.own, h.types⟩, h.representations⟩, h.params⟩, h.methods⟩, h.groups⟩
  · exact fun ⟨⟨⟨⟨⟨own, types⟩, representations⟩, params⟩, methods⟩, groups⟩ =>
      ⟨own, types, representations, params, methods, groups⟩

/-- One more item keeps a description sound; `before` is what is known of the description so far. -/
theorem addItem_sound (hc : c.Fits P) {app app' : Application} {item : ElementKind × Element}
    (h : Yields (addItem pos app item) app') (hbase : pos.base = c.base)
    (hitem : item.2.Holds c.text) (before : DocsHold P app → app.PartsSound c)
    (hdocs : DocsHold P app') : app'.PartsSound c := by
  unfold addItem at h
  split at h
  · obtain ⟨t, ht, h⟩ := h.bind
    obtain ⟨_, hnew, h⟩ := h.bind
    obtain rfl := h.pure
    obtain ⟨hold, htype⟩ := List.forall_mem_append.1 hdocs.types
    have happ := before { hdocs with types := hold }
    have hsound := readResourceType_sound hc ht hbase hitem (List.forall_mem_singleton.1 htype)
    obtain ⟨hsounds, hids⟩ :=
      forall_mem_added happ.resourceTypes happ.resourceTypeIds hsound rfl hnew
    exact { happ with resourceTypes := hsounds, resourceTypeIds := hids }
  · obtain ⟨r, hr, h⟩ := h.bind
    obtain ⟨_, hnew, h⟩ := h.bind
    obtain rfl := h.pure
    obtain ⟨hold, hrepresentation⟩ := List.forall_mem_append.1 hdocs.representations
    have happ := before { hdocs with representations := hold }
    have hsound :=
      readRepresentation_sound hc hr hbase hitem (List.forall_mem_singleton.1 hrepresentation)
    obtain ⟨hsounds, hids⟩ :=
      forall_mem_added happ.representations happ.representationIds hsound (hsound.id rfl) hnew
    exact { happ with representations := hsounds, representationIds := hids }
  · obtain ⟨p, hp, h⟩ := h.bind
    obtain ⟨_, hnew, h⟩ := h.bind
    obtain rfl := h.pure
    obtain ⟨hold, hparam⟩ := List.forall_mem_append.1 hdocs.params
    have happ := before { hdocs with params := hold }
    have hsound := readParam_sound hc hp hbase hitem (List.forall_mem_singleton.1 hparam)
    obtain ⟨hsounds, hids⟩ := forall_mem_added happ.params happ.paramIds hsound (hsound.id rfl) hnew
    exact { happ with params := hsounds, paramIds := hids }
  · obtain ⟨m, hm, h⟩ := h.bind
    obtain ⟨_, hnew, h⟩ := h.bind
    obtain rfl := h.pure
    obtain ⟨hold, hmethod⟩ := List.forall_mem_append.1 hdocs.methods
    have happ := before { hdocs with methods := hold }
    have hsound := readTopMethod_sound hc hm hbase hitem (List.forall_mem_singleton.1 hmethod)
    obtain ⟨hsounds, hids⟩ := forall_mem_added happ.methods happ.methodIds hsound hsound.2 hnew
    exact { happ with methods := hsounds, methodIds := hids }
  · obtain ⟨hrefs, hhrefs, h⟩ := h.bind
    obtain rfl := h.pure
    have happ := before { hdocs with }
    exact { happ with
      grammars := List.forall_mem_append.2 ⟨happ.grammars, readGrammars_sound hhrefs hitem⟩ }
  · obtain ⟨g, hg, h⟩ := h.bind
    obtain rfl := h.pure
    obtain ⟨hold, hgroup⟩ := List.forall_mem_append.1 hdocs.groups
    have happ := before { hdocs with groups := hold }
    have hsound := readGroup_sound hc hg hbase hitem (List.forall_mem_singleton.1 hgroup)
    exact { happ with
      resources := List.forall_mem_append.2 ⟨happ.resources, List.forall_mem_singleton.2 hsound⟩ }
  · obtain rfl := h.pure
    exact before hdocs

/-- All parts of a description that is read are sound, so that it can be written and read again. -/
theorem readApplication_sound (hc : c.Fits P) {strict : Bool} {root : Xml.Node} {app : Application}
    (h : Yields (readApplication c.base strict root) app) (hroot : root.Holds c.text)
    (hdocs : ∀ d ∈ app.allDocs, P d) : app.PartsSound c := by
  cases root with
  | element tag content =>
    simp only [readApplication] at h
    split at h
    · obtain ⟨_, hthrow, -⟩ := h.bind
      exact absurd hthrow not_yields_throw
    · obtain ⟨found, hfound, h⟩ := h.bind
      have hall := allHold_items (e := ⟨tag, content⟩) hroot hfound
      refine Yields.foldlM_keeps (fun b => DocsHold P b → b.PartsSound c) ?_ ?_ h
        (docsHold_iff.2 hdocs)
      · intro b b' item hitem hb hadd
        exact addItem_sound hc hadd rfl (hall item hitem) hb
      · intro hempty
        constructor
        · rfl
        · exact readDocs_sound hc hall hempty.own
        all_goals simp
  | text s => exact absurd h not_yields_throw
  | comment s => exact absurd h not_yields_throw
  | instruction s => exact absurd h not_yields_throw

end Parts

end Reader

/-- What is read satisfies everything that the readers of its parts check, and its identifiers
differ. -/
theorem readDescription_sound {c : Criteria} {P : Doc → Prop} (hc : c.Fits P) {strict : Bool}
    {root : Xml.Node} {app : Application} (h : Yields (readDescription c.base strict root) app)
    (hroot : root.Holds c.text) (hdocs : ∀ d ∈ app.allDocs, P d) : app.Sound c := by
  unfold readDescription at h
  obtain ⟨found, hfound, h⟩ := h.bind
  obtain ⟨index, hindex, h⟩ := h.bind
  obtain rfl := h.pure
  refine { Reader.readApplication_sound hc hfound hroot hdocs with index := ?_ }
  have hindex := hindex.lift
  unfold Index.ofApplication at hindex
  split at hindex
  · assumption
  · cases hindex

/-- Criteria that everything satisfies. -/
def Criteria.loose (base : String) : Criteria := ⟨base, fun _ => True, fun _ => True⟩

/-- What is read satisfies all that does not depend on the texts and the documentation. -/
theorem readDescription_sound_loose {base : String} {strict : Bool} {root : Xml.Node}
    {app : Application} (h : Yields (readDescription base strict root) app) :
    app.Sound (.loose base) :=
  readDescription_sound (c := .loose base)
    ⟨trivial, trivial, fun _ _ => trivial, fun _ _ => trivial⟩ h
    (Xml.Node.holds_of_forall (fun _ => trivial) root) fun _ _ => trivial

end Wadl
