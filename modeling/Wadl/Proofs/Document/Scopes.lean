import Wadl.Proofs.Document.Reading

/-!
# What declares a placeholder

A `Scope` is what a resource or a resource type says of placeholders. The check of a resource passes
if all placeholders are declared, or if something in its scope is known only once references are
followed (`Scope.IsKnown`). What encloses the resource counts with the params that stand there
themselves: a reference among them neither declares anything nor stops the check
(`missed_of_undeclaredPlaceholder?`).
-/

namespace Wadl

/-! ## Scopes -/

/-- What a resource or a resource type says of placeholders: those of its path, and its params and
methods. -/
structure Scope where
  path : Option String
  params : List ParamItem
  methods : List MethodItem

/-- What references name, as far as they name a param or a method. -/
structure Meaning where
  param? : Reference → Option Param
  method? : Reference → Option Method

/-- The param that an item stands for. -/
def Meaning.ofParam (μ : Meaning) : ParamItem → Option Param
  | .inline p => some p
  | .ref ref _ => μ.param? ref

/-- The method that an item stands for. -/
def Meaning.ofMethod (μ : Meaning) : MethodItem → Option Method
  | .inline m => some m
  | .ref ref => μ.method? ref

namespace Scope

/-- The placeholders of the path. -/
def placeholders (s : Scope) : List String := placeholdersOf (s.path.getD "")

/-- A template param among some items has a name. -/
def Lists (μ : Meaning) (items : List ParamItem) (name : String) : Prop :=
  ∃ item ∈ items, ∃ p, μ.ofParam item = some p ∧ p.style = .template ∧ p.name = name

/-- A placeholder is declared by a template param of the scope, of a scope around it, or of a
request of one of its methods, once references are replaced by what they name. -/
def Declares (μ : Meaning) (s : Scope) (around : List Scope) (name : String) : Prop :=
  (∃ s' ∈ s :: around, Lists μ s'.params name) ∨
    ∃ item ∈ s.methods, ∃ m, μ.ofMethod item = some m ∧ ∃ request, m.request = some request ∧
      Lists μ request.params name

/-- No param and no method of the scope, and no param of the requests of these, is a reference. -/
def IsKnown (s : Scope) : Prop :=
  (∀ item ∈ s.params, ∃ p, item = .inline p) ∧
    ∀ item ∈ s.methods, ∃ m, item = .inline m ∧
      ∀ request, m.request = some request → ∀ item ∈ request.params, ∃ p, item = .inline p

/-- Nothing in the scope is known only once references are followed, and it has a placeholder that
no template param in the scope or around it declares itself. -/
structure Misses (s : Scope) (around : List Scope) (name : String) : Prop where
  placeholder : name ∈ s.placeholders
  known : s.IsKnown
  params : ∀ s' ∈ s :: around, name ∉ Reader.templateNames s'.params
  requests : ∀ m, .inline m ∈ s.methods → ∀ request, m.request = some request →
    name ∉ Reader.templateNames request.params

end Scope

namespace Reader

theorem mem_templateNames {name : String} {items : List ParamItem} :
    name ∈ templateNames items ↔ ∃ p, .inline p ∈ items ∧ p.style = .template ∧ p.name = name := by
  unfold templateNames
  rw [List.mem_filterMap]
  constructor
  · rintro ⟨item, hitem, h⟩
    cases item with
    | inline p => exact ⟨p, hitem, by simpa using h⟩
    | ref ref id => cases h
  · rintro ⟨p, hp, hstyle, rfl⟩
    exact ⟨.inline p, hp, by simp [hstyle]⟩

theorem lists_of_mem_templateNames {μ : Meaning} {name : String} {items : List ParamItem}
    (h : name ∈ templateNames items) : Scope.Lists μ items name := by
  obtain ⟨p, hp, hstyle, hname⟩ := mem_templateNames.1 h
  exact ⟨.inline p, hp, p, rfl, hstyle, hname⟩

theorem hasReferences_eq_false {items : List ParamItem} :
    hasReferences items = false ↔ ∀ item ∈ items, ∃ p, item = .inline p := by
  unfold hasReferences
  rw [List.any_eq_false]
  refine forall₂_congr fun item _ => ?_
  cases item <;> simp

theorem mapM_requestParams {methods : List MethodItem} {requests : List (List ParamItem)} :
    methods.mapM requestParams = some requests ↔
      List.Forall₂ (fun item params => requestParams item = some params) methods requests := by
  induction methods generalizing requests with
  | nil => simp [eq_comm]
  | cons item methods ih =>
    simp only [List.mapM_cons, Option.bind_eq_bind, Option.bind_eq_some_iff, Option.pure_def,
      Option.some.injEq, List.forall₂_cons_left_iff, ← ih]
    exact ⟨fun ⟨p, hp, ps, hps, h⟩ => ⟨p, ps, hp, hps, h.symm⟩,
      fun ⟨p, ps, hp, hps, h⟩ => ⟨p, hp, ps, hps, h.symm⟩⟩

/-- Where no method and no param of a request is a reference, the params of all requests are
found. -/
theorem requests_of_inline {methods : List MethodItem}
    (h : ∀ item ∈ methods, ∃ m, item = .inline m ∧
      ∀ request, m.request = some request → ∀ item ∈ request.params, ∃ p, item = .inline p) :
    ∃ requests, methods.mapM requestParams = some requests ∧
      ∀ items ∈ requests, hasReferences items = false := by
  induction methods with
  | nil => exact ⟨[], rfl, by simp⟩
  | cons item methods ih =>
    obtain ⟨⟨m, rfl, hm⟩, hrest⟩ := List.forall_mem_cons.1 h
    obtain ⟨requests, hmapM, hall⟩ := ih hrest
    refine ⟨(m.request.map (·.params)).getD [] :: requests, ?_, List.forall_mem_cons.2 ⟨?_, hall⟩⟩
    · rw [List.mapM_cons, hmapM]
      rfl
    · rw [hasReferences_eq_false]
      cases hrequest : m.request with
      | none => simp
      | some request => exact hm request hrequest

/-- The check finds a placeholder that a scope misses. -/
theorem missed_of_undeclaredPlaceholder? {s : Scope} {around : List Scope} {declared : List String}
    {name : String} (hdeclared : ∀ s' ∈ s :: around, templateNames s'.params ⊆ declared)
    (h : undeclaredPlaceholder? declared s.path s.params s.methods = some name) :
    s.Misses around name := by
  unfold undeclaredPlaceholder? at h
  split at h
  · cases h
  · rename_i requests hrequests
    split at h
    · cases h
    · rename_i hreferences
      have hforall := mapM_requestParams.1 hrequests
      rw [Bool.not_eq_true, List.any_cons, Bool.or_eq_false_iff, List.any_eq_false] at hreferences
      obtain ⟨hparams, hall⟩ := hreferences
      have hname := List.find?_some h
      simp only [Bool.not_eq_true', List.contains_eq_mem, decide_eq_false_iff_not, List.mem_append,
        List.mem_flatMap, not_or, not_exists, not_and] at hname
      -- the params of the request of a method are among those that were looked at
      have hrequest : ∀ m, .inline m ∈ s.methods → ∀ request, m.request = some request →
          request.params ∈ requests := by
        intro m hm request hreq
        obtain ⟨items, hitems, heq⟩ := exists_right_of_forall₂ hforall hm
        rw [requestParams, hreq] at heq
        obtain rfl : request.params = items := Option.some.inj heq
        exact hitems
      refine ⟨List.mem_of_find?_eq_some h,
        ⟨hasReferences_eq_false.1 hparams, fun item hitem => ?_⟩, ?_, ?_⟩
      · obtain ⟨items, -, heq⟩ := exists_right_of_forall₂ hforall hitem
        cases item with
        | ref ref => cases heq
        | inline m =>
          refine ⟨m, rfl, fun request hreq => hasReferences_eq_false.1 ?_⟩
          simpa using hall _ (hrequest m hitem request hreq)
      · exact fun s' hs' hmem => hname.1 (hdeclared s' hs' hmem)
      · exact fun m hm request hreq hmem => hname.2 _ (hrequest m hm request hreq) hmem

/-- Where nothing is known only once references are followed, the check passes only if all
placeholders are declared. -/
theorem declared_of_undeclaredPlaceholder? {s : Scope} {declared : List String} (hknown : s.IsKnown)
    (h : undeclaredPlaceholder? declared s.path s.params s.methods = none) {name : String}
    (hname : name ∈ s.placeholders) :
    name ∈ declared ∨ ∃ m, .inline m ∈ s.methods ∧ ∃ request, m.request = some request ∧
      name ∈ templateNames request.params := by
  obtain ⟨requests, hrequests, hall⟩ := requests_of_inline hknown.2
  have hreferences : (s.params :: requests).any hasReferences = false := by
    rw [List.any_cons, hasReferences_eq_false.2 hknown.1, Bool.false_or, List.any_eq_false]
    exact fun items hitems => by simp [hall items hitems]
  unfold undeclaredPlaceholder? at h
  rw [hrequests] at h
  simp only [hreferences, Bool.false_eq_true, if_false] at h
  have hfound := List.find?_eq_none.1 h name hname
  simp only [Bool.not_eq_true', List.contains_eq_mem, decide_eq_false_iff_not, Decidable.not_not,
    List.mem_append, List.mem_flatMap] at hfound
  refine hfound.imp_right ?_
  rintro ⟨items, hitems, hmem⟩
  obtain ⟨item, hitem, heq⟩ := exists_left_of_forall₂ (mapM_requestParams.1 hrequests) hitems
  cases item with
  | ref ref => cases heq
  | inline m =>
    obtain rfl := Option.some.inj heq
    cases hrequest : m.request with
    | none =>
      rw [hrequest] at hmem
      cases hmem
    | some request =>
      rw [hrequest] at hmem
      exact ⟨m, hitem, request, hrequest, hmem⟩

/-- The path of a resource type has no placeholders. -/
theorem undeclaredPlaceholder?_of_no_path (declared : List String) (params : List ParamItem)
    (methods : List MethodItem) : undeclaredPlaceholder? declared none params methods = none := by
  unfold undeclaredPlaceholder?
  split
  · rfl
  · split
    · rfl
    · rfl

end Reader

/-- Only a reference around the scope can declare a placeholder that is missed. -/
theorem Scope.Misses.exists_ref {s : Scope} {around : List Scope} {name : String}
    (h : s.Misses around name) {μ : Meaning} (hdeclares : s.Declares μ around name) :
    ∃ s' ∈ around, ∃ ref id p, .ref ref id ∈ s'.params ∧ μ.param? ref = some p ∧
      p.style = .template ∧ p.name = name := by
  rcases hdeclares with ⟨s', hs', item, hitem, p, hp, hstyle, hname⟩ |
    ⟨item, hitem, m, hm, request, hrequest, hlists⟩
  · cases item with
    | inline p' =>
      obtain rfl := Option.some.inj hp
      exact absurd (Reader.mem_templateNames.2 ⟨p', hitem, hstyle, hname⟩) (h.params s' hs')
    | ref ref id =>
      rcases List.mem_cons.1 hs' with rfl | hs'
      · obtain ⟨p', heq⟩ := h.known.1 _ hitem
        cases heq
      · exact ⟨s', hs', ref, id, p, hitem, hp, hstyle, hname⟩
  · obtain ⟨m', rfl, hinline⟩ := h.known.2 item hitem
    obtain rfl := Option.some.inj hm
    obtain ⟨item, hitem', p, hp, hstyle, hname⟩ := hlists
    obtain ⟨p', rfl⟩ := hinline request hrequest item hitem'
    obtain rfl := Option.some.inj hp
    exact absurd (Reader.mem_templateNames.2 ⟨p', hitem', hstyle, hname⟩)
      (h.requests m' hitem request hrequest)

end Wadl
