import Wadl.Proofs.Client.Capture
import Wadl.Proofs.Naming.Shapes

/-!
# Names that a client has for itself

The code of a client stores what it needs in attributes and variables that begin with an underscore.
No style writes such a name (`Shape`), neither an underscore after a reserved word nor a number
after a name makes one, and so no argument, method, field or class that is named after something
described has one. The names of classes begin with a capital, and those of methods and fields with a
small letter or, if a number is all there is, with a digit (`BeginsLow`). Only the class that a
module begins with is called as the configuration says.
-/

namespace Wadl

open CharClass

/-! ## First characters -/

/-- A name that begins with a small letter or a digit, if it is not empty. -/
def BeginsLow (name : String) : Prop := ∀ c ∈ name.toList.head?, Shape.isLow c = true

/-- A name that begins with a capital. -/
def BeginsHigh (name : String) : Prop := ∃ c ∈ name.toList.head?, isAsciiUpper c = true

namespace BeginsLow

variable {name : String}

theorem head_ne_underscore (h : BeginsLow name) : name.toList.head? ≠ some '_' :=
  fun hhead => absurd (h '_' hhead) (by decide)

/-- What begins low still does with more behind it; an empty name takes its beginning from what
follows. -/
theorem append (h : BeginsLow name) {rest : String} (hrest : name = "" → BeginsLow rest) :
    BeginsLow (name ++ rest) := by
  intro c hc
  rw [String.toList_append, List.head?_append] at hc
  cases hname : name.toList with
  | nil =>
    rw [hname, List.head?_nil, Option.none_or] at hc
    exact hrest (String.toList_eq_nil_iff.1 hname) c hc
  | cons d ds =>
    rw [hname, List.head?_cons, Option.some_or] at hc
    exact h c (by rwa [hname])

/-- Escaping reserved words keeps the beginning of a name. -/
theorem escaped (h : BeginsLow name) {s : NameScope} (hs : s.reserved = reservedWords) :
    BeginsLow (s.escaped name) := by
  rw [NameScope.escaped, hs]
  split
  · rename_i hreserved
    refine h.append fun hempty => ?_
    rw [hempty] at hreserved
    exact absurd hreserved (by decide)
  · exact h

/-- Numbering a name keeps its beginning. -/
theorem numbered (h : BeginsLow name) (n : Nat) : BeginsLow (NameScope.numbered name n) := by
  rw [NameScope.numbered]
  split
  · exact h
  · refine h.append fun _ c hc => Bool.or_eq_true_iff.2 (Or.inr ?_)
    exact isAsciiDigit_of_mem_toString c (List.mem_of_mem_head? hc)

end BeginsLow

theorem Capital.beginsHigh {name : String} (h : Capital name) : BeginsHigh name := by
  obtain ⟨c, cs, hname, hc, -⟩ := h
  exact ⟨c, by rw [hname]; rfl, hc⟩

namespace BeginsHigh

variable {name : String}

theorem head_ne_underscore (h : BeginsHigh name) : name.toList.head? ≠ some '_' := by
  obtain ⟨c, hc, hupper⟩ := h
  intro hhead
  obtain rfl := Option.some.inj (hc.symm.trans hhead)
  exact absurd hupper (by decide)

/-- No name begins both high and low, so the names of classes and those of members never meet. -/
theorem not_low (h : BeginsHigh name) : ¬BeginsLow name := by
  obtain ⟨c, hc, hupper⟩ := h
  intro hlow
  rw [Naming.not_upper_of_isLow (hlow c hc)] at hupper
  cases hupper

end BeginsHigh

/-- What a style writes begins with a small letter. -/
theorem beginsLow_of_mem {name : String} {l : Language Char}
    (h : name = "" ∨ name.toList ∈ Shape.one isAsciiLower * l) : BeginsLow name := by
  rcases h with rfl | ⟨_, ⟨c, hc, rfl⟩, rest, -, hname⟩
  · rintro c ⟨⟩
  · rw [BeginsLow, ← hname]
    rintro d ⟨⟩
    exact Bool.or_eq_true_iff.2 (Or.inl hc)

/-- Identifiers begin low in every style. -/
theorem beginsLow_identifier (style : NamingStyle) (text : String) :
    BeginsLow (style.identifier text) := by
  cases style with
  | snake =>
    have hshape := snake_writes.shaped text
    rw [Shape.snake, mul_assoc] at hshape
    exact beginsLow_of_mem hshape
  | camel => exact beginsLow_of_mem (camel_writes.shaped text)

theorem beginsLow_spelled (style : NamingStyle) (text : String) : BeginsLow (style.spelled text) :=
  (beginsLow_identifier style text).escaped rfl

/-! ## Names in a client -/

namespace ClientModule

/-- The names of the arguments of operations and accessors. -/
def argumentNames (m : ClientModule) : List String :=
  m.classes.flatMap (fun c => c.operations.flatMap fun op => op.args.map (·.name)) ++
    m.accessors.flatMap fun a => a.args.map (·.name)

/-- The names of operations, accessors and helpers that follow links. -/
def methodNames (m : ClientModule) : List String :=
  m.classes.flatMap (fun c => c.operations.map (·.name)) ++ m.accessors.map (·.name) ++
    m.allModels.flatMap fun model => model.follows.map (·.name)

/-- The names of the fields of models. -/
def fieldNames (m : ClientModule) : List String :=
  m.allModels.flatMap fun model => model.fields.map (·.name)

/-- The names of the classes that are made of what is described: all but the one that the module
begins with. -/
def describedNames (m : ClientModule) : List String :=
  m.enums.map (·.name) ++ m.allModels.map (·.name) ++ m.classes.map (·.name)

/-- What the code of a client calls its attributes and variables. -/
def internalNames : List String := ["_url", "_transport", "_response"]

/-- The names of arguments, methods, fields and some classes are apart from those that a client has
for itself, and those of the classes are apart from those of methods and fields. -/
structure KeepsApart (m : ClientModule) (classes : List String) : Prop where
  underscore : ∀ name ∈ m.argumentNames ++ m.methodNames ++ m.fieldNames ++ classes,
    name.toList.head? ≠ some '_'
  internal : ∀ name ∈ m.argumentNames ++ m.methodNames ++ m.fieldNames ++ classes,
    name ∉ internalNames
  classes : ∀ name ∈ classes, name ∉ m.methodNames ++ m.fieldNames

/-- Names of arguments, methods and fields that begin low and names of classes that begin with
capitals are apart. -/
theorem keepsApart_of {m : ClientModule} {classes : List String}
    (hlow : ∀ name ∈ m.argumentNames ++ m.methodNames ++ m.fieldNames, BeginsLow name)
    (hhigh : ∀ name ∈ classes, BeginsHigh name) : m.KeepsApart classes := by
  have hunderscore : ∀ name ∈ m.argumentNames ++ m.methodNames ++ m.fieldNames ++ classes,
      name.toList.head? ≠ some '_' := by
    intro name hname
    rcases List.mem_append.1 hname with hname | hname
    · exact (hlow name hname).head_ne_underscore
    · exact (hhigh name hname).head_ne_underscore
  refine ⟨hunderscore, fun name hname hinternal => ?_, fun name hname hmem => ?_⟩
  · have hall : ∀ name ∈ internalNames, name.toList.head? = some '_' := by decide
    exact hunderscore name hname (hall name hinternal)
  · refine (hhigh name hname).not_low (hlow name ?_)
    rw [List.append_assoc]
    exact List.mem_append_right _ hmem

end ClientModule

namespace Build

variable {env : Env}

/-! ## Operations -/

/-- An operation and its arguments begin low, and the scope still guards reserved words. -/
theorem operation_low {c : Container} {className : String} {methods : List (Placed Method)}
    {scope scope' : NameScope} {m : Placed Method} {op : Operation}
    (hscope : scope.reserved = reservedWords)
    (h : Yields (operation env c className methods scope m) (op, scope')) :
    scope'.reserved = reservedWords ∧ BeginsLow op.name ∧ ∀ name ∈ op.args.map (·.name),
      BeginsLow name := by
  obtain ⟨left, d₁, d₂, d₃, d₄, -, hname, -⟩ := operation_yields h
  obtain ⟨hspelled, hargs, hbody⟩ := operation_spelled h
  obtain ⟨hgiven, hscope'⟩ := claim_spelled hscope hname
  refine ⟨hscope', hgiven ▸ beginsLow_spelled _ _, fun name hname => ?_⟩
  rcases List.mem_append.1 (hargs.mem_iff.1 hname) with hused | hsent
  · obtain ⟨e, he, hv⟩ := List.mem_filterMap.1 hused
    rw [hspelled e he name hv]
    exact beginsLow_spelled _ _
  · obtain ⟨b, hb, rfl⟩ := Option.map_eq_some_iff.1 (Option.mem_toList.1 hsent)
    rw [hbody b hb]
    rintro c ⟨⟩
    decide

theorem operations_low {c : Container} {className : String} {methods ms : List (Placed Method)}
    {scope scope' : NameScope} {ops : List Operation} (hscope : scope.reserved = reservedWords)
    (h : Yields (operations env c className methods scope ms) (ops, scope')) :
    scope'.reserved = reservedWords ∧
      ∀ op ∈ ops, BeginsLow op.name ∧ ∀ name ∈ op.args.map (·.name), BeginsLow name := by
  refine operations_induct (fun scope _ ops scope' => scope.reserved = reservedWords →
    scope'.reserved = reservedWords ∧
    ∀ op ∈ ops, BeginsLow op.name ∧ ∀ name ∈ op.args.map (·.name), BeginsLow name) ?_ ?_ h hscope
  · exact fun scope hscope => ⟨hscope, by simp⟩
  · intro scope inner scope' m ms op ops hop ih hscope
    obtain ⟨hinner, hlow⟩ := operation_low hscope hop
    obtain ⟨hscope', hrest⟩ := ih hinner
    exact ⟨hscope', List.forall_mem_cons.2 ⟨hlow, hrest⟩⟩

/-! ## Accessors -/

/-- The names that accessors are looked up by begin low. -/
theorem low_of_mem_accessorNames {resources : List Resource} :
    ∀ name ∈ accessorNames env resources, BeginsLow name := by
  intro name hname
  obtain ⟨res, -, rfl⟩ := List.mem_map.1 hname
  exact iteInduction (fun _ => beginsLow_identifier _ _) fun _ => beginsLow_identifier _ _

/-- An accessor and its arguments begin low. -/
theorem accessor_low {scope scope' : NameScope} {child : Container}
    {res : Resource} {base : UrlBase} {wanted : String} {a : Accessor}
    (hscope : scope.reserved = reservedWords) (hwanted : BeginsLow wanted)
    (h : Yields (accessor env scope child res base wanted) (a, scope')) :
    scope'.reserved = reservedWords ∧ BeginsLow a.name ∧ ∀ name ∈ a.args.map (·.name),
      BeginsLow name := by
  obtain ⟨⟨source, hgiven⟩, -, decls, -, hargs⟩ := accessor_yields h
  have hnamed : scope'.reserved = reservedWords ∧ BeginsLow a.name := by
    rcases hgiven with hclaim | hunique
    · obtain ⟨htakes, hname⟩ := claim_takes hclaim
      exact ⟨htakes.reserved.trans hscope, hname ▸ hwanted.escaped hscope⟩
    · obtain ⟨htakes, k, hk⟩ := scope.claimUnique_takes wanted source
      rw [hunique] at htakes hk
      exact ⟨htakes.reserved.trans hscope,
        (show a.name = _ from hk) ▸ (hwanted.escaped hscope).numbered k⟩
  refine ⟨hnamed.1, hnamed.2, fun name hname => ?_⟩
  obtain ⟨arg, harg, rfl⟩ := List.mem_map.1 hname
  rw [placeholderArgs_spelled rfl hargs arg harg]
  exact beginsLow_spelled _ _

theorem accessors_low {scope : NameScope}
    {wanted : List ((Container × Resource × UrlBase) × String)} {as : List Accessor}
    (hscope : scope.reserved = reservedWords) (hwanted : ∀ x ∈ wanted, BeginsLow x.2)
    (h : Yields (accessors env scope wanted) as) :
    ∀ a ∈ as, BeginsLow a.name ∧ ∀ name ∈ a.args.map (·.name), BeginsLow name := by
  refine accessors_induct (fun scope wanted as => scope.reserved = reservedWords →
    (∀ x ∈ wanted, BeginsLow x.2) →
    ∀ a ∈ as, BeginsLow a.name ∧ ∀ name ∈ a.args.map (·.name), BeginsLow name) ?_
      ?_ h hscope hwanted
  · exact fun scope _ _ => by simp
  · intro scope inner child res base name rest a as ha ih hscope hwanted
    obtain ⟨hname, hrest⟩ := List.forall_mem_cons.1 hwanted
    obtain ⟨hinner, hlow⟩ := accessor_low hscope hname ha
    exact List.forall_mem_cons.2 ⟨hlow, ih hinner hrest⟩

theorem namedAccessors_low {scope : NameScope} {children : List (Container × Resource × UrlBase)}
    {as : List Accessor} (hscope : scope.reserved = reservedWords)
    (h : Yields (namedAccessors env scope children) as) :
    ∀ a ∈ as, BeginsLow a.name ∧ ∀ name ∈ a.args.map (·.name), BeginsLow name :=
  accessors_low hscope (fun x hx => low_of_mem_accessorNames x.2 (List.of_mem_zip hx).2) h

/-! ## Models -/

/-- Helpers that follow links begin low. -/
theorem followHelpers_low {p : Param} {field : String} {links : List Link}
    {scope scope' : NameScope} {helpers : List FollowHelper}
    (hscope : scope.reserved = reservedWords)
    (h : followHelpers env scope field p links = .ok (helpers, scope')) :
    ∀ f ∈ helpers, BeginsLow f.name := by
  induction links generalizing scope scope' helpers with
  | nil =>
    obtain ⟨rfl, -⟩ := Prod.mk.inj (Except.ok.inj h)
    simp
  | cons link rest ih =>
    rw [followHelpers] at h
    split at h
    · exact ih hscope h
    · obtain ⟨target, -, h⟩ := Result.bind_ok.1 h
      obtain ⟨⟨name, inner⟩, hname, h⟩ := Result.bind_ok.1 h
      obtain ⟨⟨more, last⟩, hmore, h⟩ := Result.bind_ok.1 h
      obtain ⟨rfl, -⟩ := Prod.mk.inj (Result.pure_ok.1 h)
      obtain ⟨hgiven, hinner⟩ := claim_spelled hscope hname
      exact List.forall_mem_cons.2 ⟨hgiven ▸ beginsLow_spelled _ _, ih hinner hmore⟩

theorem modelFields_low {owner : String} {ps : List Param} {scope : NameScope}
    {fields : List ModelField} {follows : List FollowHelper}
    (hscope : scope.reserved = reservedWords)
    (h : modelFields env owner scope ps = .ok (fields, follows)) :
    ∀ f ∈ follows, BeginsLow f.name := by
  induction ps generalizing scope fields follows with
  | nil =>
    obtain ⟨-, rfl⟩ := Prod.mk.inj (Except.ok.inj h)
    simp
  | cons p rest ih =>
    rw [modelFields] at h
    obtain ⟨⟨name, scope₁⟩, hname, h⟩ := Result.bind_ok.1 h
    obtain ⟨type, -, h⟩ := Result.bind_ok.1 h
    obtain ⟨field, hfield, h⟩ := Result.bind_ok.1 h
    obtain ⟨⟨helpers, scope₂⟩, hhelpers, h⟩ := Result.bind_ok.1 h
    obtain ⟨⟨fields', more⟩, hrest, h⟩ := Result.bind_ok.1 h
    obtain ⟨-, rfl⟩ := Prod.mk.inj (Result.pure_ok.1 h)
    obtain ⟨-, hscope₁⟩ := claim_spelled hscope hname
    exact List.forall_mem_append.2 ⟨followHelpers_low hscope₁ hhelpers,
      ih ((followHelpers_take hhelpers).reserved.trans hscope₁) hrest⟩

/-- Fields and helpers of a model begin low. -/
theorem modelClass_low {t : CanonicalType} {model : ModelClass}
    (h : Yields (modelClass env t) model) :
    (∀ f ∈ model.fields, BeginsLow f.name) ∧ ∀ f ∈ model.follows, BeginsLow f.name := by
  obtain ⟨-, hfields⟩ := modelClass_yields h
  refine ⟨fun f hf => ?_, modelFields_low rfl hfields⟩
  rw [modelFields_spelled rfl hfields f hf]
  exact beginsLow_spelled _ _

/-! ## Clients -/

namespace Built

variable {m : ClientModule}

/-- In a module that was built, each operation and each argument begins low. -/
theorem operations_low (h : Built env m) {c : ResourceClass} (hc : c ∈ m.classes) :
    ∀ op ∈ c.operations, BeginsLow op.name ∧ ∀ name ∈ op.args.map (·.name), BeginsLow name := by
  obtain ⟨container, hmade⟩ := h.exists_classMade hc
  obtain ⟨methods, scope, -, hops, -⟩ := hmade.members
  exact (Build.operations_low rfl hops).2

theorem accessors_low (h : Built env m) :
    ∀ a ∈ m.accessors, BeginsLow a.name ∧ ∀ name ∈ a.args.map (·.name), BeginsLow name := by
  intro a ha
  rcases List.mem_append.1 ha with ha | ha
  · obtain ⟨c, hc, ha⟩ := List.mem_flatMap.1 ha
    obtain ⟨container, hmade⟩ := h.exists_classMade hc
    obtain ⟨methods, scope, -, hops, haccessors⟩ := hmade.members
    exact namedAccessors_low (Build.operations_low rfl hops).1 haccessors a ha
  · obtain ⟨accessors, haccessors, hentry⟩ := h.entry.bind
    obtain ⟨doc, -, hentry⟩ := hentry.bind
    rw [← hentry.pure] at ha
    exact namedAccessors_low rfl haccessors a ha

/-- All names below the level of the module begin low. -/
theorem low (h : Built env m) :
    ∀ name ∈ m.argumentNames ++ m.methodNames ++ m.fieldNames, BeginsLow name := by
  have hmodels : ∀ model ∈ m.allModels,
      (∀ f ∈ model.fields, BeginsLow f.name) ∧ ∀ f ∈ model.follows, BeginsLow f.name := by
    intro model hmodel
    obtain ⟨t, -, hyields⟩ := h.exists_modelClass hmodel
    exact modelClass_low hyields
  intro name hname
  simp only [ClientModule.argumentNames, ClientModule.methodNames,
    ClientModule.fieldNames, List.mem_append, List.mem_flatMap] at hname
  rcases hname with ((⟨c, hc, op, hop, hname⟩ | ⟨a, ha, hname⟩) | (⟨c, hc, hname⟩ | hname) | ⟨model,
    hmodel, hname⟩) | ⟨model, hmodel, hname⟩
  · exact (h.operations_low hc op hop).2 name hname
  · exact (h.accessors_low a ha).2 name hname
  · obtain ⟨op, hop, rfl⟩ := List.mem_map.1 hname
    exact (h.operations_low hc op hop).1
  · obtain ⟨a, ha, rfl⟩ := List.mem_map.1 hname
    exact (h.accessors_low a ha).1
  · obtain ⟨f, hf, rfl⟩ := List.mem_map.1 hname
    exact (hmodels model hmodel).2 f hf
  · obtain ⟨f, hf, rfl⟩ := List.mem_map.1 hname
    exact (hmodels model hmodel).1 f hf

/-- All names of types in a module begin with a capital. -/
theorem capital {config : ClientConfig} (h : Built env m) (htypes : NamesTypes config env.table)
    (hclassNames : ∀ x ∈ env.classNames, Capital x.2) :
    ∀ name ∈ m.describedNames, Capital name := by
  intro name hname
  simp only [ClientModule.describedNames, List.mem_append] at hname
  rcases hname with (hname | hname) | hname
  · obtain ⟨e, he, rfl⟩ := List.mem_map.1 hname
    exact htypes.capital.2 e (h.enums ▸ he)
  · obtain ⟨model, hmodel, rfl⟩ := List.mem_map.1 hname
    obtain ⟨t, ht, hyields⟩ := h.exists_modelClass hmodel
    rw [(modelClass_yields hyields).1]
    exact htypes.capital.1 t ht
  · obtain ⟨c, hc, rfl⟩ := List.mem_map.1 hname
    obtain ⟨container, hmade⟩ := h.exists_classMade hc
    exact hclassNames _ (mem_of_lookup (classAt_ok.1 hmade.name))

end Built

end Build

/-! ## Styles and clients -/

/-- A name in small letters, in camel case, with capitals at the start of words and in capitals has
its shape; only the last is never empty, and the others are empty just if there is nothing to write.
A name in small letters is written in this style as it is. Therefore the names in a client that are
made of what is described keep apart; the first class of a client is called as the configuration
says, and keeps apart too if that begins with a capital. -/
theorem names_shaped :
    Writes snake Shape.snake ∧ Writes camel Shape.camel ∧ Writes pascal Shape.pascal ∧
    (∀ text, (constant text).toList ∈ Shape.constant ∧
      (∀ c ∈ (constant text).toList.head?, isAsciiDigit c = false) ∧ constant text ≠ "") ∧
    (∀ text, snake (snake text) = snake text) ∧
    ∀ {r : Resolution} {first config : ClientConfig} {table : TypeTable} {m : ClientModule}
      {s t s' t' : List Notice},
      Gives (unify r first) s table t → Gives (buildModule r table config) s' m t' →
        m.entry.name = config.clientName ∧ m.KeepsApart m.describedNames ∧
        (BeginsHigh config.clientName → m.KeepsApart (m.describedNames ++ [m.entry.name])) := by
  refine ⟨snake_writes, camel_writes, pascal_writes, constant_mem, snake_snake,
    fun {r first config _ _ _ _ _ _} hu hm => ?_⟩
  obtain ⟨classNames, hbuilt⟩ := Build.built_of_yields hm.yields
  have htypes := unify_names hu.yields
  obtain ⟨given, htakes, -, -⟩ := htypes.given
  obtain ⟨-, hclassNames⟩ :=
    Build.claimClasses_takes (htakes.reserved.trans (moduleScope_reserved first)) hbuilt.classNames
  have hhigh : ∀ name ∈ _, BeginsHigh name := fun name hname =>
    (hbuilt.capital htypes (fun x hx => (hclassNames x hx).1) name hname).beginsHigh
  refine ⟨hbuilt.entry_name, ClientModule.keepsApart_of hbuilt.low hhigh, fun hclient => ?_⟩
  rw [hbuilt.entry_name]
  exact ClientModule.keepsApart_of hbuilt.low
    (List.forall_mem_append.2 ⟨hhigh, List.forall_mem_singleton.2 hclient⟩)

/-- A description of one resource, which can be asked whether it is there. -/
def pings : Application :=
  let ping : Resource :=
    ⟨none, some "ping", [], formMediaType, [],
      [.inline ⟨"GET", none, none, [⟨[204], [], [], []⟩], []⟩], [], []⟩
  ⟨"http://h/d", [], [], [⟨some "http://h/", [ping]⟩], [], [], [], []⟩

/-- The names of the methods and the classes of a client. -/
def ClientModule.methodsAndClasses (m : ClientModule) : List String × List String :=
  (m.methodNames, m.describedNames ++ [m.entry.name])

theorem names_shaped_pings :
    let r : Resolution := ⟨pings, [], [("http://h/d", pings)]⟩
    ∃ table t m t', Gives (unify r {}) [] table t ∧ Gives (buildModule r table {}) t m t' ∧
      m.methodsAndClasses = (["get", "ping"], ["PingResource", "Client"]) ∧
      m.KeepsApart (m.describedNames ++ [m.entry.name]) := by
  intro r
  obtain ⟨⟨table, m⟩, t', h, hnames⟩ := exists_gives_of_any (x := Build.typedClient r {}) (s := [])
    (p := fun x => x.2.methodsAndClasses = (["get", "ping"], ["PingResource", "Client"]))
      (by decide +kernel)
  obtain ⟨t, hu, hm⟩ := Build.typedClient_gives h
  exact ⟨table, t, m, t', hu, hm, of_decide_eq_true hnames,
    (names_shaped.2.2.2.2.2 hu hm).2.2 ⟨'C', rfl, by decide⟩⟩

/-- The first class of a client can have an underscore in front, or the name of a method. -/
theorem not_keepsApart_pings :
    let r : Resolution := ⟨pings, [], [("http://h/d", pings)]⟩
    let mixes (clientName : String) : Prop :=
      ∃ table t m t', Gives (unify r { clientName }) [] table t ∧
        Gives (buildModule r table { clientName }) t m t' ∧ m.entry.name = clientName ∧
        ¬m.KeepsApart (m.describedNames ++ [m.entry.name])
    mixes "_Client" ∧ mixes "get" := by
  intro r mixes
  have hmixes : ∀ {clientName : String},
      (Id.run ((Build.typedClient r { clientName }).run.run [])).1.toOption.any
      (fun x => decide (x.2.methodsAndClasses = (["get", "ping"], ["PingResource", clientName]))) =
        true →
      clientName.toList.head? = some '_' ∨ clientName ∈ ["get", "ping"] → mixes clientName := by
    intro clientName hrun hclient
    obtain ⟨⟨table, m⟩, t', h, hnames⟩ := exists_gives_of_any hrun
    obtain ⟨t, hu, hm⟩ := Build.typedClient_gives h
    obtain ⟨hmethods, hclasses⟩ := Prod.mk.inj (of_decide_eq_true hnames)
    have hentry : m.entry.name = clientName := by simpa using congrArg List.getLast? hclasses
    have hmem : clientName ∈ m.describedNames ++ [m.entry.name] := by
      rw [hclasses]
      exact List.mem_cons_of_mem _ List.mem_cons_self
    refine ⟨table, t, m, t', hu, hm, hentry, fun hapart => ?_⟩
    rcases hclient with hclient | hclient
    · exact hapart.underscore clientName (List.mem_append_right _ hmem) hclient
    · exact hapart.classes clientName hmem (List.mem_append_left _ (hmethods ▸ hclient))
  exact ⟨hmixes (by decide +kernel) (Or.inl rfl), hmixes (by decide +kernel) (Or.inr (by decide))⟩

end Wadl
