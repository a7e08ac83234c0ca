import Wadl.Proofs.Client.Building

/-!
# What generated source refers to

The classes of a client refer to other classes, models and enums by name (`ClientModule.mentions`),
and each of these names should be one that the client defines (`ClientModule.definitions`). A
reference is known while the client is built if it comes from the tables that building starts with
(`Build.Knows`): whatever a step of building writes, it takes from these, one lemma for each step up
to `classMade_knows`.
-/

namespace Wadl

/-- A reference to something that a client defines. -/
inductive Mention where
  /-- The class of a resource or a resource type. -/
  | resource (name : String)
  | model (ref : ModelRef)
  | enum (name : String)
  | member (enum member : String)
  deriving DecidableEq, Repr

/-! ## References in a client -/

/-- The references in a type. -/
def ValueType.mentions : ValueType → List Mention
  | .written _ => []
  | .enum name => [.enum name]

/-- The references in a value. -/
def ValueExpr.mentions : ValueExpr → List Mention
  | .literal _ => []
  | .member enum name => [.member enum name]
  | .argument _ => []

/-- The references in the type of a body. -/
def BodyType.mentions : BodyType → List Mention
  | .model ref => [.model ref]
  | .raw _ => []

/-- The references in a default. -/
def FieldDefault.mentions : FieldDefault → List Mention
  | .required => []
  | .emptyList => []
  | .nothing => []
  | .value v => v.mentions

/-- The references in a field. -/
def ModelField.mentions (f : ModelField) : List Mention :=
  f.shape.base.mentions ++ f.default.mentions

/-- The references in a model: those of its fields, and the classes that its links lead to. -/
def ModelClass.mentions (c : ModelClass) : List Mention :=
  c.fields.flatMap (·.mentions) ++ c.follows.map fun h => .resource h.target

/-- The references in an accessor: the class that it gives, and those of its arguments. -/
def Accessor.mentions (a : Accessor) : List Mention :=
  .resource a.target :: a.args.flatMap (·.type.mentions)

/-- The references in the type of an argument. -/
def ArgType.mentions : ArgType → List Mention
  | .value shape => shape.base.mentions
  | .body type => type.mentions

/-- The references in the default of an argument. -/
def ArgDefault.mentions : ArgDefault → List Mention
  | .required => []
  | .nothing => []
  | .value v => v.mentions

/-- The references in an argument. -/
def Argument.mentions (a : Argument) : List Mention := a.type.mentions ++ a.default.mentions

/-- The references in a form of a response: what its body is decoded into, and what is returned. -/
def Choice.mentions (c : Choice) : List Mention :=
  c.model.toList.map .model ++ c.type.mentions

/-- The references in values that are sent. -/
def mentionsOfValues (values : List (String × ValueExpr)) : List Mention :=
  values.flatMap (·.2.mentions)

/-- The references in an operation. -/
def Operation.mentions (op : Operation) : List Mention :=
  op.args.flatMap (·.mentions) ++
    mentionsOfValues (op.template ++ op.matrix ++ op.query ++ op.header) ++
    op.branches.flatMap fun b => b.choices.flatMap (·.mentions)

/-- The references in a class. -/
def ResourceClass.mentions (c : ResourceClass) : List Mention :=
  c.bases.map .resource ++ c.nested.flatMap (·.mentions) ++ c.operations.flatMap (·.mentions) ++
    c.accessors.flatMap (·.mentions)

/-- The references in a client. -/
def ClientModule.mentions (m : ClientModule) : List Mention :=
  m.models.flatMap (·.mentions) ++ m.classes.flatMap (·.mentions) ++
    m.entry.accessors.flatMap (·.mentions)

/-- What a client defines, each under the name by which it is to be referred to: a model that stands
in a class is named with the class. -/
def ClientModule.definitions (m : ClientModule) : List Mention :=
  (m.enums.flatMap fun e => .enum e.name :: e.members.map fun x => .member e.name x.1) ++
    (m.models.map fun c => .model ⟨none, c.name⟩) ++
    m.classes.flatMap fun c => .resource c.name :: c.nested.map fun model =>
      .model ⟨some c.name, model.name⟩

namespace Build

variable {env : Env}

variable (env) in
/-- What can be referred to while a client is built: the classes whose names were claimed, and the
types and enums of the table. -/
def Knows : Mention → Prop
  | .resource name => ∃ place, classAt env place = .ok name
  | .model ref => ∃ c ∈ env.table.types, modelRef env c = ref
  | .enum name => ∃ e ∈ env.table.enums, e.name = name
  | .member enum member => ∃ e ∈ env.table.enums, e.name = enum ∧ member ∈ e.members.map (·.1)

variable (env) in
/-- All of some references are known. -/
def KnowsAll (mentions : List Mention) : Prop := ∀ x ∈ mentions, Knows env x

@[simp] theorem knowsAll_nil : KnowsAll env [] := by simp [KnowsAll]

@[simp] theorem knowsAll_cons {x : Mention} {xs : List Mention} :
    KnowsAll env (x :: xs) ↔ Knows env x ∧ KnowsAll env xs := List.forall_mem_cons

/-- What is mentioned in two lists is known if it is in each. -/
@[simp] theorem knowsAll_append {xs ys : List Mention} :
    KnowsAll env (xs ++ ys) ↔ KnowsAll env xs ∧ KnowsAll env ys := List.forall_mem_append

@[simp] theorem knowsAll_flatMap {α : Type} {f : α → List Mention} {as : List α} :
    KnowsAll env (as.flatMap f) ↔ ∀ a ∈ as, KnowsAll env (f a) := List.forall_mem_flatMap

/-! ## Types and values -/

/-- The enum of a param is one of the enums of the table. -/
theorem mem_enums_of_enumFor? {table : TypeTable} {p : Param} {e : EnumType}
    (h : table.enumFor? p = some e) : e ∈ table.enums := by
  unfold TypeTable.enumFor? at h
  split at h
  · cases h
  · exact List.mem_of_find?_eq_some h

/-- The type of a value mentions only what the client has. -/
theorem valueType_knows {p : Param} {source : String} {type : ValueType}
    (h : valueType env p source = .ok type) : KnowsAll env type.mentions := by
  unfold valueType at h
  split at h
  · rename_i e he
    rw [← Except.ok.inj h]
    exact List.forall_mem_singleton.2 ⟨e, mem_enums_of_enumFor? he, rfl⟩
  · obtain ⟨text, -, rfl⟩ := Result.map_ok.1 h
    exact knowsAll_nil

/-- A value mentions only enums that the client has. -/
theorem valueExpr_knows {p : Param} {value source : String} {type : ValueType} {v : ValueExpr}
    (h : valueExpr env p value type source = .ok v) : KnowsAll env v.mentions := by
  unfold valueExpr at h
  split at h
  · obtain ⟨l, -, rfl⟩ := Result.map_ok.1 h
    exact knowsAll_nil
  · rename_i e he
    split at h
    · rename_i member option hfind
      rw [← Except.ok.inj h]
      exact List.forall_mem_singleton.2 ⟨e, mem_enums_of_enumFor? he, rfl,
        List.mem_map.2 ⟨_, List.mem_of_find?_eq_some hfind, rfl⟩⟩
    · cases h

/-- The model of a representation is one that the client has. -/
theorem modelOf_knows {rep : Placed Representation} {ref : ModelRef}
    (h : modelOf env rep = some ref) : Knows env (.model ref) := by
  obtain ⟨c, hc, rfl⟩ := Option.map_eq_some_iff.1 h
  exact ⟨c, List.mem_of_find?_eq_some hc, rfl⟩

theorem bodyType_knows (rep : Placed Representation) :
    KnowsAll env (bodyType env rep).mentions := by
  unfold bodyType
  split
  · rename_i ref href
    exact List.forall_mem_singleton.2 (modelOf_knows href)
  · exact knowsAll_nil

/-! ## Models -/

/-- A field mentions only what its type mentions. -/
theorem modelField_knows {p : Param} {name source : String} {type : ValueType} {field : ModelField}
    (htype : KnowsAll env type.mentions) (h : modelField env p name type source = .ok field) :
    KnowsAll env field.mentions := by
  unfold modelField at h
  simp only at h
  split at h
  · rw [← Result.pure_ok.1 h]
    cases p.required <;> exact knowsAll_append.2 ⟨htype, knowsAll_nil⟩
  · split at h
    · obtain ⟨v, hv, h⟩ := Result.bind_ok.1 h
      rw [← Result.pure_ok.1 h]
      exact knowsAll_append.2 ⟨htype, valueExpr_knows hv⟩
    · rw [← Result.pure_ok.1 h]
      cases p.required <;> exact knowsAll_append.2 ⟨htype, knowsAll_nil⟩

/-- The class of a resource type is one that the client has. -/
theorem classOfType_knows {ref : Reference} {name : String} (h : classOfType env ref = .ok name) :
    Knows env (.resource name) := by
  obtain ⟨t, -, h⟩ := Result.bind_ok.1 h
  exact ⟨t.place, h⟩

/-- Helpers lead to classes that the client has. -/
theorem followHelpers_know {p : Param} {field : String} {links : List Link}
    {scope scope' : NameScope} {helpers : List FollowHelper}
    (h : followHelpers env scope field p links = .ok (helpers, scope')) :
    ∀ helper ∈ helpers, Knows env (.resource helper.target) := by
  induction links generalizing scope helpers with
  | nil =>
    obtain ⟨rfl, rfl⟩ := Prod.mk.inj (Except.ok.inj h)
    simp
  | cons link rest ih =>
    rw [followHelpers] at h
    split at h
    · exact ih h
    · obtain ⟨target, htarget, h⟩ := Result.bind_ok.1 h
      obtain ⟨⟨name, inner⟩, -, h⟩ := Result.bind_ok.1 h
      obtain ⟨⟨more, last⟩, hmore, h⟩ := Result.bind_ok.1 h
      obtain ⟨rfl, rfl⟩ := Prod.mk.inj (Result.pure_ok.1 h)
      exact List.forall_mem_cons.2 ⟨classOfType_knows htarget, ih hmore⟩

theorem modelFields_know {owner : String} {ps : List Param} {scope : NameScope}
    {fields : List ModelField} {follows : List FollowHelper}
    (h : modelFields env owner scope ps = .ok (fields, follows)) :
    (∀ f ∈ fields, KnowsAll env f.mentions) ∧ ∀ helper ∈ follows,
      Knows env (.resource helper.target) := by
  induction ps generalizing scope fields follows with
  | nil =>
    obtain ⟨rfl, rfl⟩ := Prod.mk.inj (Except.ok.inj h)
    simp
  | cons p rest ih =>
    rw [modelFields] at h
    obtain ⟨⟨name, scope₁⟩, -, h⟩ := Result.bind_ok.1 h
    obtain ⟨type, htype, h⟩ := Result.bind_ok.1 h
    obtain ⟨field, hfield, h⟩ := Result.bind_ok.1 h
    obtain ⟨⟨helpers, scope₂⟩, hhelpers, h⟩ := Result.bind_ok.1 h
    obtain ⟨⟨fields', more⟩, hrest, h⟩ := Result.bind_ok.1 h
    obtain ⟨rfl, rfl⟩ := Prod.mk.inj (Result.pure_ok.1 h)
    obtain ⟨hfields, hfollows⟩ := ih hrest
    exact ⟨List.forall_mem_cons.2 ⟨modelField_knows (valueType_knows htype) hfield, hfields⟩,
      List.forall_mem_append.2 ⟨followHelpers_know hhelpers, hfollows⟩⟩

/-- A model mentions only what the client has. -/
theorem modelClass_knows {t : CanonicalType} {model : ModelClass}
    (h : Yields (modelClass env t) model) : KnowsAll env model.mentions := by
  obtain ⟨hfields, hfollows⟩ := modelFields_know (modelClass_yields h).2
  rw [ModelClass.mentions, knowsAll_append, knowsAll_flatMap]
  exact ⟨hfields, List.forall_mem_map.2 hfollows⟩

/-! ## Accessors -/

/-- The arguments of an accessor mention only what the client has. -/
theorem placeholderArgs_know {decls : List Param} {label : String} {names : List String}
    {scope : NameScope} {args : List PlaceholderArg}
    (h : placeholderArgs env decls label scope names = .ok args) :
    ∀ a ∈ args, KnowsAll env a.type.mentions := by
  induction names generalizing scope args with
  | nil =>
    obtain rfl := Except.ok.inj h
    simp
  | cons name rest ih =>
    rw [placeholderArgs] at h
    split at h
    · exact ih h
    · obtain ⟨⟨given, inner⟩, -, h⟩ := Result.bind_ok.1 h
      obtain ⟨type, htype, h⟩ := Result.bind_ok.1 h
      obtain ⟨more, hmore, h⟩ := Result.bind_ok.1 h
      obtain rfl := Result.pure_ok.1 h
      exact List.forall_mem_cons.2 ⟨valueType_knows htype, ih hmore⟩

theorem accessors_know {scope : NameScope}
    {wanted : List ((Container × Resource × UrlBase) × String)} {as : List Accessor}
    (h : Yields (accessors env scope wanted) as) : ∀ a ∈ as, KnowsAll env a.mentions := by
  refine accessors_induct (fun _ _ as => ∀ a ∈ as, KnowsAll env a.mentions) (by simp) ?_ h
  intro scope scope' child res base name rest a as ha ih
  obtain ⟨-, htarget, decls, -, hargs⟩ := accessor_yields ha
  refine List.forall_mem_cons.2 ⟨?_, ih⟩
  rw [Accessor.mentions, knowsAll_cons, knowsAll_flatMap]
  exact ⟨⟨child.place, htarget⟩, placeholderArgs_know hargs⟩

/-! ## Operations -/

variable (env) in
/-- All references in a draft are known. -/
structure Draft.Known (d : Draft) : Prop where
  args : ∀ a ∈ d.args, KnowsAll env a.mentions
  values : KnowsAll env (mentionsOfValues (d.template ++ d.matrix ++ d.query ++ d.header))

/-- A draft keeps to what is known if what is added does. -/
theorem Draft.Known.push {d : Draft} (h : d.Known env) {name : String} {v : ValueExpr}
    (hv : KnowsAll env v.mentions) (style : ParamStyle) : (d.push style (name, v)).Known env := by
  obtain ⟨hargs, hvalues⟩ := h
  constructor
  · cases style <;> exact hargs
  · cases style <;>
      simp only [Draft.push, mentionsOfValues, List.flatMap_append,
        knowsAll_append, List.flatMap_cons, List.flatMap_nil, knowsAll_nil, hv] at hvalues ⊢ <;>
      tauto

/-- An argument mentions only what its type and its default mention. -/
theorem argument_knows {scope scope' : NameScope} {p : Param} {type : ValueType} {source : String}
    {required : Bool} {arg : Argument} (htype : KnowsAll env type.mentions)
    (h : Yields (argument env scope p type source required) (arg, scope')) :
    KnowsAll env arg.mentions := by
  have hall : ∀ {isList isOptional : Bool} {d : ArgDefault} {name doc : String},
      KnowsAll env d.mentions →
      KnowsAll env (Argument.mentions ⟨name, .value ⟨type, isList, isOptional⟩, d, doc⟩) :=
    fun hd => knowsAll_append.2 ⟨htype, hd⟩
  unfold argument at h
  obtain ⟨⟨name, inner⟩, -, h⟩ := h.bind
  simp only at h
  split at h
  all_goals
    obtain ⟨doc, -, h⟩ := h.bind
    split at h
    · obtain ⟨rfl, -⟩ := Prod.mk.inj h.pure
      exact hall knowsAll_nil
    · split at h
      · obtain ⟨v, hv, h⟩ := h.bind
        obtain ⟨rfl, -⟩ := Prod.mk.inj h.pure
        have hdefault : KnowsAll env (ArgDefault.value v).mentions := valueExpr_knows hv.lift
        exact hall hdefault
      · obtain ⟨rfl, -⟩ := Prod.mk.inj h.pure
        exact hall knowsAll_nil

/-- Adding a param keeps a draft to what is known. -/
theorem supply_known {d d' : Draft} {p : Param} {source : String} {required : Bool}
    (hd : d.Known env) (h : Yields (supply env d p source required) d') : d'.Known env := by
  obtain ⟨type, htype, h⟩ := h.bind
  cases hfixed : p.fixed with
  | some value =>
    rw [hfixed] at h
    obtain ⟨v, hv, h⟩ := h.bind
    rw [← h.pure]
    exact hd.push (valueExpr_knows hv.lift) p.style
  | none =>
    rw [hfixed] at h
    obtain ⟨⟨arg, scope⟩, harg, h⟩ := h.bind
    rw [← h.pure]
    have harg := argument_knows (valueType_knows htype.lift) harg
    refine ⟨List.forall_mem_append.2 ⟨hd.args, List.forall_mem_singleton.2 harg⟩, ?_⟩
    have hsent : KnowsAll env (ValueExpr.argument arg.name).mentions := knowsAll_nil
    exact (hd.push hsent p.style).values

theorem sentBody_known {m : Placed Method} {d d' : Draft}
    {body : Option SentBody} (hd : d.Known env) (h : sentBody env m d = .ok (body, d')) :
    d'.Known env := by
  rw [sentBody] at h
  split at h
  · obtain ⟨-, rfl⟩ := Prod.mk.inj (Result.pure_ok.1 h)
    exact hd
  · obtain ⟨reps, -, h⟩ := Result.bind_ok.1 h
    split at h
    · obtain ⟨-, rfl⟩ := Prod.mk.inj (Result.pure_ok.1 h)
      exact hd
    · obtain ⟨⟨name, scope⟩, -, h⟩ := Result.bind_ok.1 h
      obtain ⟨-, rfl⟩ := Prod.mk.inj (Result.pure_ok.1 h)
      refine ⟨List.forall_mem_append.2 ⟨hd.args, List.forall_mem_singleton.2 ?_⟩, hd.values⟩
      exact knowsAll_append.2 ⟨bodyType_knows _, knowsAll_nil⟩

theorem mem_of_mem_upToUnconditional {c : Choice} :
    ∀ {choices : List Choice}, c ∈ upToUnconditional choices → c ∈ choices
  | [], h => by cases h
  | d :: rest, h => by
    rw [upToUnconditional] at h
    split at h
    · exact List.mem_singleton.1 h ▸ List.mem_cons_self
    · rcases List.mem_cons.1 h with rfl | h
      · exact List.mem_cons_self
      · exact List.mem_cons_of_mem d (mem_of_mem_upToUnconditional h)

/-- A branch mentions only models that the client has. -/
theorem branch_knows {place : Place} {response : Response} {b : Branch}
    (h : branch env place response = .ok b) : ∀ c ∈ b.choices, KnowsAll env c.mentions := by
  obtain ⟨reps, -, h⟩ := Result.bind_ok.1 h
  obtain rfl := Result.pure_ok.1 h
  intro c hc
  obtain ⟨rep, -, rfl⟩ := List.mem_map.1 (mem_of_mem_upToUnconditional hc)
  rw [Choice.mentions, knowsAll_append]
  refine ⟨List.forall_mem_map.2 fun ref href => ?_, bodyType_knows rep⟩
  exact modelOf_knows (Option.mem_toList.1 href)

theorem branches_know {m : Placed Method} {bs : List Branch} (h : branches env m = .ok bs) :
    ∀ b ∈ bs, ∀ c ∈ b.choices, KnowsAll env c.mentions := by
  unfold branches at h
  split at h
  · obtain rfl := Except.ok.inj h
    simp
  · intro b hb
    obtain ⟨x, -, hx⟩ := (Result.mem_mapM_ok h).1 hb
    exact branch_knows hx

/-- An operation mentions only what the client has. -/
theorem operation_knows {c : Container} {className : String} {methods : List (Placed Method)}
    {scope scope' : NameScope} {m : Placed Method} {op : Operation}
    (h : Yields (operation env c className methods scope m) (op, scope')) :
    KnowsAll env op.mentions := by
  obtain ⟨left, d₁, d₂, d₃, d₄, hsteps, -, hbranches, -, hargs, htemplate, hmatrix,
      hquery, hheader⟩ :=
    operation_yields h
  have hd₃ : d₃.Known env :=
    hsteps.keeps (Draft.Known env) (fun _ => ⟨by simp, by simp [mentionsOfValues]⟩)
    (fun _ _ hd => ⟨hd.args, hd.values⟩) fun _ _ _ _ _ => supply_known
  have hd₄ := sentBody_known hd₃ hsteps.body
  rw [Operation.mentions, hargs, htemplate, hmatrix, hquery, hheader,
    knowsAll_append, knowsAll_append, knowsAll_flatMap, knowsAll_flatMap]
  exact ⟨⟨hd₄.args, hd₄.values⟩, fun b hb => knowsAll_flatMap.2 (branches_know hbranches b hb)⟩

end Build

end Wadl
