import Wadl.Proofs.Client.Comments
import Wadl.Proofs.Client.Sending

/-!
# Accessors and the placeholders that they fill

The accessor of a resource goes through the path and fills each placeholder that a template param
declares, on the resource or around it, with an argument. Its argument is claimed wherever a
placeholder stands, so that a placeholder which stands twice clashes with itself
(`placeholderArgs_result`). So an accessor is given just if the declared placeholders of the path
differ, and it fills these, in their order, and nothing else (`accessor_given_iff`).
-/

namespace Wadl

/-! ## Lists in which an element is met again -/

section FirstAgain

variable {α : Type} [DecidableEq α]

/-- The first element that was seen before. -/
def firstAgain? (seen : List α) : List α → Option α
  | [] => none
  | x :: xs => if x ∈ seen then some x else firstAgain? (x :: seen) xs

theorem firstAgain?_eq_none {seen xs : List α} :
    firstAgain? seen xs = none ↔ xs.Nodup ∧ ∀ x ∈ xs, x ∉ seen := by
  induction xs generalizing seen with
  | nil => simp [firstAgain?]
  | cons x xs ih =>
    rw [firstAgain?, List.nodup_cons, List.forall_mem_cons]
    split
    · rename_i hx
      simp [hx]
    · rename_i hx
      rw [ih]
      simp only [hx, List.mem_cons, not_or, not_false_eq_true, true_and, forall_and]
      constructor
      · rintro ⟨hnodup, hne, hseen⟩
        exact ⟨⟨fun hmem => hne x hmem rfl, hnodup⟩, hseen⟩
      · rintro ⟨⟨hmem, hnodup⟩, hseen⟩
        exact ⟨hnodup, fun y hy hyx => hmem (hyx ▸ hy), hseen⟩

/-- What is met again stands after elements that differ, and is one of them or was seen before
these. -/
theorem firstAgain?_eq_some {seen xs : List α} {x : α} (h : firstAgain? seen xs = some x) :
    ∃ before after, xs = before ++ x :: after ∧ before.Nodup ∧ (x ∈ before ∨ x ∈ seen) ∧
      ∀ y ∈ before, y ∉ seen := by
  induction xs generalizing seen with
  | nil => cases h
  | cons y xs ih =>
    rw [firstAgain?] at h
    split at h
    · rename_i hy
      obtain rfl := Option.some.inj h
      exact ⟨[], xs, rfl, .nil, Or.inr hy, by simp⟩
    · rename_i hy
      obtain ⟨before, after, rfl, hnodup, hx, hseen⟩ := ih h
      refine ⟨y :: before, after, rfl, List.nodup_cons.2 ⟨fun hmem => ?_, hnodup⟩, ?_, ?_⟩
      · exact hseen y hmem List.mem_cons_self
      · rw [List.mem_cons] at hx ⊢
        tauto
      · exact List.forall_mem_cons.2 ⟨hy, fun z hz hmem => hseen z hz (List.mem_cons_of_mem y hmem)⟩

end FirstAgain

/-! ## Placeholders that are declared -/

/-- A template param stands on one of some stations. -/
def TemplateOn (r : Resolution) (stations : List Station) (p : Param) : Prop :=
  (∃ s ∈ stations, ∃ item ∈ s.holder.params, r.param item = .ok p) ∧ p.style = .template

theorem declares_iff {r : Resolution} {stations : List Station} {name : String} :
    Declares r stations name ↔ ∃ p, TemplateOn r stations p ∧ p.name = name := by
  constructor
  · rintro ⟨s, hs, item, hitem, p, hp, hstyle, hname⟩
    exact ⟨p, ⟨⟨s, hs, item, hitem, hp⟩, hstyle⟩, hname⟩
  · rintro ⟨p, ⟨⟨s, hs, item, hitem, hp⟩, hstyle⟩, hname⟩
    exact ⟨s, hs, item, hitem, p, hp, hstyle, hname⟩

/-- The declaration of a placeholder on some stations, each around the one before it: the first
template param that has its name. -/
def Resolution.declaration? (r : Resolution) (stations : List Station) (name : String) :
    Option Param :=
  ((stations.flatMap (·.holder.params)).filterMap fun item => (r.param item).toOption).find?
      fun p =>
    p.style = .template ∧ p.name = name

theorem declares_iff_isSome {r : Resolution} {stations : List Station} {name : String} :
    Declares r stations name ↔ (r.declaration? stations name).isSome := by
  rw [declares_iff, Resolution.declaration?, List.find?_isSome]
  simp only [TemplateOn, List.mem_filterMap, List.mem_flatMap,
    Result.toOption_ok, decide_eq_true_eq]
  constructor
  · rintro ⟨p, ⟨⟨s, hs, item, hitem, hp⟩, hstyle⟩, hname⟩
    exact ⟨p, ⟨item, ⟨s, hs, hitem⟩, hp⟩, hstyle, hname⟩
  · rintro ⟨p, ⟨item, ⟨s, hs, hitem⟩, hp⟩, hstyle, hname⟩
    exact ⟨p, ⟨⟨s, hs, item, hitem, hp⟩, hstyle⟩, hname⟩

instance (r : Resolution) (stations : List Station) (name : String) :
    Decidable (Declares r stations name) :=
  decidable_of_iff _ declares_iff_isSome.symm

/-- The placeholders that a template param declares on some stations, in the order in which they are
given. -/
def declaredPlaceholders (r : Resolution) (stations : List Station) (placeholders : List String) :
    List String :=
  placeholders.filter fun name => Declares r stations name

namespace Build

variable {env : Env}

/-- The template params on some stations are found, their values have types, and their names make
names that are neither empty nor reserved, different ones for different names. -/
structure TemplatesNamed (env : Env) (stations : List Station) : Prop where
  found : ∃ decls, templateDecls env stations = .ok decls
  typed : ∀ p, TemplateOn env.resolution stations p → ∀ source, ∃ type,
    valueType env p source = .ok type
  named : ∀ p, TemplateOn env.resolution stations p → nameOf env p.name ≠ "" ∧
    nameOf env p.name ∉ reservedWords
  different : ∀ p q, TemplateOn env.resolution stations p → TemplateOn env.resolution stations q →
    nameOf env p.name = nameOf env q.name → p.name = q.name

theorem scopeParams_eq {stations : List Station} {ps : List Param}
    (h : scopeParams env stations = .ok ps) :
    ps = (stations.flatMap (·.holder.params)).filterMap fun item =>
      (env.resolution.param item).toOption := by
  induction stations generalizing ps with
  | nil => exact (Except.ok.inj h).symm
  | cons s above ih =>
    rw [scopeParams] at h
    obtain ⟨own, hown, h⟩ := Result.bind_ok.1 h
    obtain ⟨rest, hrest, h⟩ := Result.bind_ok.1 h
    obtain rfl := Result.pure_ok.1 h
    rw [List.flatMap_cons, List.filterMap_append,
      Result.filterMap_toOption (paramsOf_ok hown), ← ih hrest]

/-- The template param that is found for a placeholder is its declaration. -/
theorem declOf?_eq {stations : List Station} {decls : List Param}
    (h : templateDecls env stations = .ok decls) (name : String) :
    declOf? decls name = env.resolution.declaration? stations name := by
  obtain ⟨ps, hps, h⟩ := Result.bind_ok.1 h
  obtain rfl := Result.pure_ok.1 h
  rw [declOf?, List.find?_filter, Resolution.declaration?, ← scopeParams_eq hps]
  simp only [Bool.decide_and, decide_eq_true_eq]

theorem mem_templateDecls {stations : List Station} {decls : List Param}
    (h : templateDecls env stations = .ok decls) {p : Param} :
    p ∈ decls ↔ TemplateOn env.resolution stations p := by
  obtain ⟨ps, hps, h⟩ := Result.bind_ok.1 h
  obtain rfl := Result.pure_ok.1 h
  rw [List.mem_filter, mem_scopeParams hps, decide_eq_true_eq]
  exact Iff.rfl

/-- What messages call a placeholder of a resource. -/
def placeholderSource (label name : String) : String :=
  "template param " ++ quoted name ++ " of resource " ++ quoted label

/-- Of the names of declared placeholders a scope holds those that were seen, each for its
placeholder. -/
structure HoldsSeen (env : Env) (stations : List Station) (label : String) (seen : List String)
    (scope : NameScope) : Prop where
  reserved : scope.reserved = reservedWords
  holder : ∀ name, Declares env.resolution stations name → scope.holder? (nameOf env name) =
    if name ∈ seen then some (placeholderSource label name) else none

variable {stations : List Station} {label : String} {seen : List String} {scope : NameScope}

theorem holdsSeen_newScope (env : Env) (stations : List Station) (label text : String) :
    HoldsSeen env stations label [] (newScope env text) := ⟨rfl, fun _ _ => rfl⟩

/-- Different placeholders have different names, so that the name of one more stands for this one
only. -/
theorem HoldsSeen.reserve (h : HoldsSeen env stations label seen scope)
    (hnamed : TemplatesNamed env stations) {p : Param} (hp : TemplateOn env.resolution stations p) :
    HoldsSeen env stations label (p.name :: seen)
      (scope.reserve (nameOf env p.name) (placeholderSource label p.name)) := by
  refine ⟨h.reserved, fun name hname => ?_⟩
  obtain ⟨q, hq, rfl⟩ := declares_iff.1 hname
  rw [NameScope.holder?_reserve, h.holder q.name hname]
  by_cases hqp : q.name = p.name
  · simp [hqp]
  · rw [if_neg fun heq => hqp (hnamed.different q p hq hp heq)]
    simp [hqp]

/-- The name of a declared placeholder can be claimed once. -/
theorem HoldsSeen.claim (h : HoldsSeen env stations label seen scope)
    (hnamed : TemplatesNamed env stations) {p : Param} (hp : TemplateOn env.resolution stations p) :
    claim scope (nameOf env p.name) (placeholderSource label p.name) =
      if p.name ∈ seen then
        .error (.clash ⟨nameOf env p.name, placeholderSource label p.name,
          placeholderSource label p.name⟩)
      else .ok (nameOf env p.name,
          scope.reserve (nameOf env p.name) (placeholderSource label p.name)) := by
  obtain ⟨hne, hunreserved⟩ := hnamed.named p hp
  have hempty : (nameOf env p.name).isEmpty = false := by simpa using hne
  have hword : scope.reserved.contains (nameOf env p.name) = false := by
    simpa [h.reserved] using hunreserved
  rw [Build.claim, NameScope.claim, hempty, hword, NameScope.escaped, hword]
  have hholder := h.holder p.name (declares_iff.2 ⟨p, hp, rfl⟩)
  simp only [Bool.false_and, Bool.false_eq_true, if_false, NameScope.take, hholder]
  by_cases hseen : p.name ∈ seen
  · simp only [if_pos hseen]
    rfl
  · simp only [if_neg hseen]
    rfl

theorem placeholderArgs_cons {decls : List Param} {name : String} {p : Param}
    (h : declOf? decls name = some p) (rest : List String) :
    placeholderArgs env decls label scope (name :: rest) = (do
      let given ← Build.claim scope (nameOf env name) (placeholderSource label name)
      let type ← valueType env p (placeholderSource label name)
      return ⟨name, given.1, type⟩ :: (← placeholderArgs env decls label given.2 rest)) := by
  rw [placeholderArgs, h]
  rfl

/-- The arguments of an accessor are claimed for each place where a declared placeholder stands, so
that the first placeholder which is met again clashes with itself. -/
theorem placeholderArgs_result {decls : List Param}
    (hdecls : templateDecls env stations = .ok decls) (hnamed : TemplatesNamed env stations)
    (hscope : HoldsSeen env stations label seen scope) (names : List String) :
    match firstAgain? seen (declaredPlaceholders env.resolution stations names) with
    | none => ∃ args, placeholderArgs env decls label scope names = .ok args ∧
        args.map (fun a => (a.placeholder, a.name)) =
          (declaredPlaceholders env.resolution stations names).map fun name =>
            (name, nameOf env name)
    | some name => placeholderArgs env decls label scope names =
        .error (.clash
          ⟨nameOf env name, placeholderSource label name, placeholderSource label name⟩) := by
  unfold declaredPlaceholders
  induction names generalizing scope seen with
  | nil => exact ⟨[], rfl, rfl⟩
  | cons name rest ih =>
    cases hdecl : declOf? decls name with
    | none =>
      have hnone := (declOf?_eq_none hdecls).1 hdecl
      rw [placeholderArgs, hdecl, List.filter_cons_of_neg (by simpa using hnone)]
      exact ih hscope
    | some p =>
      obtain ⟨hmem, rfl⟩ : p ∈ decls ∧ p.name = name :=
        ⟨List.mem_of_find?_eq_some hdecl, by simpa using List.find?_some hdecl⟩
      have hp := (mem_templateDecls hdecls).1 hmem
      have hdeclares : Declares env.resolution stations p.name := declares_iff.2 ⟨p, hp, rfl⟩
      rw [placeholderArgs_cons hdecl, List.filter_cons_of_pos (by simpa using hdeclares),
        hscope.claim hnamed hp]
      dsimp only [firstAgain?]
      split_ifs with hseen
      · rfl
      · obtain ⟨type, htype⟩ := hnamed.typed p hp (placeholderSource label p.name)
        rw [htype]
        have hrest := ih (hscope.reserve hnamed hp)
        split at hrest
        · obtain ⟨args, hargs, hmap⟩ := hrest
          refine ⟨⟨p.name, nameOf env p.name, type⟩ :: args, Result.bind_ok.2 ⟨_, rfl, ?_⟩, ?_⟩
          · exact Result.bind_ok.2 ⟨type, rfl, Result.bind_ok.2 ⟨args, hargs, rfl⟩⟩
          · rw [List.map_cons, List.map_cons, hmap]
        · show placeholderArgs env decls label (scope.reserve _ _) rest >>= _ = _
          rw [hrest]
          rfl

section Args

variable {decls : List Param} (hdecls : templateDecls env stations = .ok decls)
    (hnamed : TemplatesNamed env stations)
  (label text : String) {placeholders : List String}
include hdecls hnamed

/-- Declared placeholders that differ have an argument each, in the order of the path. -/
theorem placeholderArgs_of_nodup
    (h : (declaredPlaceholders env.resolution stations placeholders).Nodup) :
    ∃ args, placeholderArgs env decls label (newScope env text) placeholders = .ok args ∧
      args.map (fun a => (a.placeholder, a.name)) =
        (declaredPlaceholders env.resolution stations placeholders).map fun name =>
          (name, nameOf env name) := by
  have hresult :=
    placeholderArgs_result hdecls hnamed (holdsSeen_newScope env stations label text) placeholders
  have hnone := firstAgain?_eq_none.2 ⟨h, fun _ _ => List.not_mem_nil⟩
  simpa only [hnone] using hresult

/-- A declared placeholder that is the first to be met again clashes with itself. -/
theorem placeholderArgs_of_not_nodup
    (h : ¬(declaredPlaceholders env.resolution stations placeholders).Nodup) :
    ∃ before name after, declaredPlaceholders env.resolution stations placeholders =
      before ++ name :: after ∧ before.Nodup ∧ name ∈ before ∧
      placeholderArgs env decls label (newScope env text) placeholders =
        .error (.clash
          ⟨nameOf env name, placeholderSource label name, placeholderSource label name⟩) := by
  have hresult :=
    placeholderArgs_result hdecls hnamed (holdsSeen_newScope env stations label text) placeholders
  obtain ⟨name, hsome⟩ :
      ∃ name, firstAgain? [] (declaredPlaceholders env.resolution stations placeholders) =
        some name := by
    rw [← Option.ne_none_iff_exists']
    exact fun hnone => h (firstAgain?_eq_none.1 hnone).1
  obtain ⟨before, after, hsplit, hnodup, hmem, -⟩ := firstAgain?_eq_some hsome
  refine ⟨before, name, after, hsplit, hnodup, hmem.resolve_right List.not_mem_nil, ?_⟩
  simpa only [hsome] using hresult

end Args

/-! ## Accessors -/

variable {child : Container} {res : Resource} {base : UrlBase} {wanted : String}

theorem placeholderArgs_placeholders {decls : List Param} {names : List String}
    {args : List PlaceholderArg} (h : placeholderArgs env decls label scope names = .ok args) :
    args.map (·.placeholder) = names.filter fun name => (declOf? decls name).isSome := by
  induction names generalizing scope args with
  | nil =>
    obtain rfl := Except.ok.inj h
    rfl
  | cons name rest ih =>
    cases hdecl : declOf? decls name with
    | none =>
      rw [placeholderArgs, hdecl] at h
      rw [List.filter_cons_of_neg (by simp [hdecl])]
      exact ih h
    | some p =>
      rw [placeholderArgs_cons hdecl] at h
      obtain ⟨given, -, h⟩ := Result.bind_ok.1 h
      obtain ⟨type, -, h⟩ := Result.bind_ok.1 h
      obtain ⟨more, hmore, h⟩ := Result.bind_ok.1 h
      obtain rfl := Result.pure_ok.1 h
      rw [List.filter_cons_of_pos (by simp [hdecl]), List.map_cons, ih hmore]

/-- An accessor has an argument for each placeholder of the path that is declared, whatever the
declaration says. -/
theorem accessor_placeholders {scope' : NameScope} {a : Accessor}
    (h : Yields (accessor env scope child res base wanted) (a, scope')) :
    a.args.map (·.placeholder) =
      declaredPlaceholders env.resolution (child.here :: child.above) res.placeholders := by
  obtain ⟨-, -, decls, hdecls, hargs⟩ := accessor_yields h
  rw [placeholderArgs_placeholders hargs, declaredPlaceholders]
  refine List.filter_congr fun name _ => ?_
  rw [declOf?_eq hdecls, eq_comm, Bool.eq_iff_iff, decide_eq_true_eq]
  exact declares_iff_isSome

/-- An accessor is given if its name can be claimed, its arguments are, and the resource has a
class. -/
theorem exists_accessor (hwanted : wanted ∈ scope.reserved →
      ∃ x, claim scope wanted ("resource " ++ quoted (resourceLabel res)) = .ok x)
    {decls : List Param} (hdecls : templateDecls env (child.here :: child.above) = .ok decls)
    (hargs : ∀ name, ∃ args, placeholderArgs env decls (resourceLabel res)
      (newScope env ("accessor " ++ name)) res.placeholders = .ok args)
    {target : String} (htarget : classAt env child.place = .ok target) :
    ∃ x, Always (accessor env scope child res base wanted) x := by
  obtain ⟨doc, hdoc, -⟩ := exists_docOf env res.docs
  unfold accessor
  split
  case' isTrue hreserved =>
    obtain ⟨named, hnamed⟩ := hwanted (List.contains_iff_mem.1 hreserved)
    obtain ⟨args, hargs⟩ := hargs named.1
    refine (always_lift hnamed).exists_bind ?_
  case' isFalse =>
    obtain ⟨args, hargs⟩ :=
      hargs (scope.claimUnique wanted ("resource " ++ quoted (resourceLabel res))).1
    refine (always_pure _).exists_bind ?_
  all_goals
    refine (always_lift hdecls).exists_bind <| (always_lift hargs).exists_bind <| ?_
    exact (always_lift htarget).exists_bind <| hdoc.exists_bind ⟨_, always_pure _⟩

/-- An accessor is refused for its name, for its arguments, or for a class that is missing. -/
theorem accessor_fails {e : GenerationError}
    (h : Fails (accessor env scope child res base wanted) e) :
    (wanted ∈ scope.reserved ∧
      claim scope wanted ("resource " ++ quoted (resourceLabel res)) = .error e) ∨
      templateDecls env (child.here :: child.above) = .error e ∨
      (∃ decls name, templateDecls env (child.here :: child.above) = .ok decls ∧
        placeholderArgs env decls (resourceLabel res)
          (newScope env ("accessor " ++ name)) res.placeholders =
          .error e) ∨ classAt env child.place = .error e := by
  obtain ⟨doc, hdoc, -⟩ := exists_docOf env res.docs
  unfold accessor at h
  split at h
  case' isTrue hreserved =>
    rcases h.bind with h | ⟨named, -, h⟩
    · exact Or.inl ⟨List.contains_iff_mem.1 hreserved, h.lift⟩
  case' isFalse =>
    rcases h.bind with h | ⟨named, -, h⟩
    · exact absurd h not_fails_pure
  all_goals
    refine Or.inr ?_
    rcases h.bind with h | ⟨decls, hdecls, h⟩
    · exact Or.inl h.lift
    rcases h.bind with h | ⟨args, -, h⟩
    · exact Or.inr (Or.inl ⟨decls, named.1, hdecls.lift, h.lift⟩)
    rcases h.bind with h | ⟨target, -, h⟩
    · exact Or.inr (Or.inr h.lift)
    rcases h.bind with h | ⟨doc, -, h⟩
    · exact absurd h hdoc.not_fails
    · exact absurd h not_fails_pure

end Build

/-- An accessor whose template params have types and names is given just if the declared
placeholders of its path differ. It fills these, in the order of the path, each with one argument,
and nothing else; otherwise the first one that is met again clashes with itself. -/
theorem accessor_given_iff {r : Resolution} {table : TypeTable} {config : ClientConfig}
    {classNames : List (Place × String)}
    (hclasses : Build.claimClasses table.scope r.containers = .ok classNames) {c : Container}
    (hc : c ∈ r.containers)
    (hnamed : Build.TemplatesNamed ⟨r, table, config, classNames, r.containers⟩ (c.here :: c.above))
    {scope : NameScope} {wanted : String} {res : Resource} (hwanted : wanted ∈ scope.reserved →
      ∃ x, Build.claim scope wanted ("resource " ++ quoted (Build.resourceLabel res)) =
        .ok x) (base : UrlBase) :
    let accessor :=
      Build.accessor ⟨r, table, config, classNames, r.containers⟩ scope c res base wanted
    let declared := declaredPlaceholders r (c.here :: c.above) res.placeholders
    ((∃ x, Always accessor x) ↔ declared.Nodup) ∧
      (∀ a scope', Yields accessor (a, scope') → declared.Nodup ∧
        a.args.map (fun p => (p.placeholder, p.name)) =
          declared.map fun name => (name, config.style.identifier name)) ∧
      ∀ e, Fails accessor e → ∃ before name after, declared = before ++ name :: after ∧
        before.Nodup ∧ name ∈ before ∧
        e = .clash ⟨config.style.identifier name,
          Build.placeholderSource (Build.resourceLabel res) name,
          Build.placeholderSource (Build.resourceLabel res) name⟩ := by
  intro accessor declared
  obtain ⟨decls, hdecls⟩ := hnamed.found
  obtain ⟨target, htarget⟩ : ∃ target, classNames.lookup c.place = some target := by
    rw [← mem_keys_of_lookup, Build.claimClasses_places hclasses]
    exact List.mem_map_of_mem hc
  have hclass : Build.classAt ⟨r, table, config, classNames, r.containers⟩ c.place = .ok target :=
    Build.classAt_ok.2 htarget
  have hyields : ∀ a scope', Yields accessor (a, scope') → declared.Nodup ∧
      a.args.map (fun p => (p.placeholder, p.name)) =
        declared.map fun name => (name, config.style.identifier name) := by
    intro a scope' h
    obtain ⟨-, -, decls', hdecls', hmade⟩ := Build.accessor_yields h
    obtain rfl := Except.ok.inj (hdecls.symm.trans hdecls')
    by_cases hnodup : declared.Nodup
    · obtain ⟨args, hargs, hmap⟩ :=
        Build.placeholderArgs_of_nodup hdecls hnamed _ ("accessor " ++ a.name) hnodup
      obtain rfl := Except.ok.inj (hargs.symm.trans hmade)
      exact ⟨hnodup, hmap⟩
    · obtain ⟨_, _, _, -, -, -, herror⟩ :=
        Build.placeholderArgs_of_not_nodup hdecls hnamed _ ("accessor " ++ a.name) hnodup
      cases herror.symm.trans hmade
  refine ⟨⟨?_, fun hnodup => ?_⟩, hyields, fun e h => ?_⟩
  · rintro ⟨⟨a, scope'⟩, h⟩
    exact (hyields a scope' (h.yields [])).1
  · refine Build.exists_accessor hwanted hdecls (fun name => ?_) hclass
    exact (Build.placeholderArgs_of_nodup hdecls hnamed _ _ hnodup).imp fun args h => h.1
  · rcases Build.accessor_fails h with ⟨hreserved, h⟩ | h | ⟨decls', name, hdecls', h⟩ | h
    · obtain ⟨x, hx⟩ := hwanted hreserved
      cases hx.symm.trans h
    · cases hdecls.symm.trans h
    · obtain rfl := Except.ok.inj (hdecls.symm.trans hdecls')
      have hnodup : ¬declared.Nodup := fun hnodup => by
        obtain ⟨args, hargs, -⟩ :=
          Build.placeholderArgs_of_nodup hdecls hnamed _ ("accessor " ++ name) hnodup
        cases hargs.symm.trans h
      obtain ⟨before, name', after, hsplit, hbefore, hmem, herror⟩ :=
        Build.placeholderArgs_of_not_nodup hdecls hnamed _ ("accessor " ++ name) hnodup
      exact ⟨before, name', after, hsplit, hbefore, hmem,
        (Except.error.inj (herror.symm.trans h)).symm⟩
    · cases hclass.symm.trans h

/-- Two resources below one with a placeholder, which stands in their own paths, too. In the second
path another placeholder stands twice. -/
def repeatedPlaceholders : Application :=
  let template (name : String) : ParamItem := .inline { name, style := .template }
  let below (path : String) : Resource :=
    ⟨none, some path, [], formMediaType, [template "y"], [], [], []⟩
  let outer : Resource := ⟨none, some "a/{x}", [], formMediaType, [template "x"], [],
    [below "b/{y}/{z}/{x}", below "c/{y}/{x}/{y}"], []⟩
  ⟨"http://h/d", [], [], [⟨some "http://h/", [outer]⟩], [], [], [], []⟩

theorem accessor_given_iff_repeatedPlaceholders :
    let r : Resolution := ⟨repeatedPlaceholders, [], [("http://h/d", repeatedPlaceholders)]⟩
    let table : TypeTable := ⟨{ label := "module" }, [], []⟩
    ∃ classNames, Build.claimClasses table.scope r.containers = .ok classNames ∧
      let env : Build.Env := ⟨r, table, {}, classNames, r.containers⟩
      let accessor (c : Container) (res : Resource) :=
        Build.accessor env { label := "class" } c res .own "below"
      (∃ c ∈ r.containers, ∃ res, c.here.holder = .resource res ∧
        res.placeholders = ["y", "z", "x"] ∧
        Build.TemplatesNamed env (c.here :: c.above) ∧ ∃ a scope',
          Always (accessor c res) (a, scope') ∧
          a.args.map (fun p => (p.placeholder, p.name)) = [("y", "y"), ("x", "x")]) ∧
      ∃ c ∈ r.containers, ∃ res, c.here.holder = .resource res ∧
        res.placeholders = ["y", "x", "y"] ∧
        Build.TemplatesNamed env (c.here :: c.above) ∧ ¬∃ x, Always (accessor c res) x := by
  intro r table
  have hok : (Build.claimClasses table.scope r.containers).isOk = true := by decide
  cases hclasses : Build.claimClasses table.scope r.containers with
  | error e =>
    rw [hclasses] at hok
    cases hok
  | ok classNames =>
    refine ⟨classNames, rfl, ?_⟩
    intro env accessor
    let x : Param := { name := "x", style := .template }
    let y : Param := { name := "y", style := .template }
    have hnamed : ∀ {stations}, Build.templateDecls env stations = .ok [y, x] →
        Build.TemplatesNamed env stations := by
      intro stations hdecls
      have hmem {p : Param} (hp : TemplateOn env.resolution stations p) : p = y ∨ p = x := by
        simpa using (Build.mem_templateDecls hdecls).2 hp
      have htype : sourceTypeOf [] "xs:string" = some "str" := by decide
      have hspelled : ∀ name ∈ ["y", "x"], NamingStyle.snake.identifier name = name := by decide
      have hname : ∀ p, TemplateOn env.resolution stations p →
          Build.nameOf env p.name = p.name := by
        intro p hp
        rcases hmem hp with rfl | rfl
        · exact hspelled "y" (by decide)
        · exact hspelled "x" (by decide)
      refine ⟨⟨_, hdecls⟩, fun p hp source => ⟨.written "str", ?_⟩, fun p hp => ?_,
        fun p q hp hq => ?_⟩
      · rcases hmem hp with rfl | rfl
        all_goals
          show ValueType.written <$> mapType [] "xs:string" source = _
          rw [mapType, htype]
          rfl
      · rw [hname p hp]
        rcases hmem hp with rfl | rfl <;> decide
      · rw [hname p hp, hname q hq]
        exact id
    have hwanted (res : Resource) : "below" ∈ ({ label := "class" } : NameScope).reserved → ∃ x,
        Build.claim { label := "class" } "below" ("resource " ++ quoted (Build.resourceLabel res)) =
          .ok x :=
      fun h => absurd h (by decide)
    let below (path : String) : Resource :=
      ⟨none, some path, [], formMediaType,
        [.inline { name := "y", style := .template }], [], [], []⟩
    let first : Container := r.containers.get ⟨1, by decide⟩
    let second : Container := r.containers.get ⟨2, by decide⟩
    have hfirst : Build.TemplatesNamed env (first.here :: first.above) := hnamed rfl
    have hsecond : Build.TemplatesNamed env (second.here :: second.above) := hnamed rfl
    refine ⟨⟨first, List.get_mem _ _, _, rfl, by decide, hfirst, ?_⟩,
      second, List.get_mem _ _, _, rfl, by decide, hsecond, ?_⟩
    · obtain ⟨hgiven, hyields, -⟩ := accessor_given_iff hclasses (List.get_mem _ _) hfirst
        (hwanted (below "b/{y}/{z}/{x}")) .own
      obtain ⟨⟨a, scope'⟩, ha⟩ := hgiven.2 (by decide)
      exact ⟨a, scope', ha, (hyields a scope' (ha.yields [])).2.trans (by decide)⟩
    · obtain ⟨hgiven, -⟩ := accessor_given_iff hclasses (List.get_mem _ _) hsecond
        (hwanted (below "c/{y}/{x}/{y}")) .own
      exact mt hgiven.1 (by decide)

end Wadl
