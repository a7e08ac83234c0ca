import Wadl.Proofs.Client.Closed
import Wadl.Proofs.Client.Script
import Wadl.Proofs.Client.Sending

/-!
# Names that generated source relies on

The methods of a client and the defaults of its models refer to functions and classes by name
(`Operation.freeNames`, `Accessor.freeNames`, `ModelField.freeNames`). An argument that has such a
name hides what the name refers to, and so does a field for the defaults after it. Classes are safe,
as their names begin with a capital and those of arguments and fields do not (`Capital.ne_small`). A
scope reserves none of the others, so that one of them is hidden if and only if what the argument or
field is declared as has this name in the chosen style (`captured_iff`); names in camel case have no
underscore, so that no function of the library is hidden by them.
-/

namespace Wadl

/-! ## Names in expressions -/

/-- The names that a literal refers to; a number that is not finite is written as a name. -/
def Literal.freeNames : Literal → List String
  | .date _ => ["datetime"]
  | .dateTime _ => ["datetime"]
  | .time _ => ["datetime"]
  | .decimal .nan => ["nan"]
  | .decimal (.infinite _) => ["inf"]
  | _ => []

/-- The names that a value refers to, besides arguments. -/
def ValueExpr.freeNames : ValueExpr → List String
  | .literal l => l.freeNames
  | .member enum _ => [enum]
  | .argument _ => []

/-- The name that the text of a model begins with. -/
def ModelRef.root (ref : ModelRef) : String := ref.owner.getD ref.name

/-- The name by which a reference is found in the module. -/
def Mention.root : Mention → String
  | .resource name => name
  | .model ref => ref.root
  | .enum name => name
  | .member e _ => e

/-! ## Names in operations -/

/-- The names that a test refers to. -/
def ResponseTest.freeNames : ResponseTest → List String
  | .hasMediaType _ => ["media_type_matches"]
  | _ => []

/-- The names by which a form is decoded. -/
def Choice.freeNames (c : Choice) : List String := "decode_body" :: c.model.toList.map ModelRef.root

/-- The names that an ending refers to. -/
def Ending.freeNames : Ending → List String
  | .returned form => form.toList.flatMap Choice.freeNames
  | .responseError form => "ResponseError" :: form.toList.flatMap Choice.freeNames
  | .unexpectedContentType => ["UnexpectedContentType"]
  | .unexpectedStatus => ["UnexpectedStatus"]

namespace Statement

mutual

/-- The names that a statement refers to. -/
def freeNames : Statement → List String
  | ending e => e.freeNames
  | guarded test body => test.freeNames ++ freeNamesAll body

/-- The names that some statements refer to. -/
def freeNamesAll : List Statement → List String
  | [] => []
  | s :: rest => s.freeNames ++ freeNamesAll rest

end

theorem freeNamesAll_append (front back : List Statement) :
    freeNamesAll (front ++ back) = freeNamesAll front ++ freeNamesAll back := by
  induction front with
  | nil => rfl
  | cons s front ih => rw [List.cons_append, freeNamesAll, freeNamesAll, ih, List.append_assoc]

end Statement

open Statement

/-- The values that an operation sends, style by style. -/
def Operation.sent (op : Operation) : List (String × ValueExpr) :=
  op.template ++ op.matrix ++ op.query ++ op.header

/-- The names that the body of an operation refers to: those that the request is made with, those in
fixed values, and those in its script. -/
def Operation.freeNames (op : Operation) : List String :=
  "build_url" :: (if op.headerArgs.isEmpty then [] else ["build_headers"]) ++
    (if op.body.isSome then ["encode_body"] else []) ++ op.sent.flatMap (·.2.freeNames) ++
      freeNamesAll op.script

/-- The free names of an operation that its arguments hide. -/
def Operation.captured (op : Operation) : List String :=
  (op.args.map (·.name)).filter (op.freeNames.contains ·)

/-- The names on the wire of the params that are passed on as arguments. -/
def Operation.passed (op : Operation) : List String :=
  (op.sent.filter (·.2.argument?.isSome)).map (·.1)

/-! ## Names in accessors and models -/

/-- The names that the body of an accessor refers to. -/
def Accessor.freeNames (a : Accessor) : List String := ["join_url", a.target]

/-- The free names of an accessor that its arguments hide. -/
def Accessor.captured (a : Accessor) : List String :=
  (a.args.map (·.name)).filter (a.freeNames.contains ·)

/-- The names that a default refers to. -/
def FieldDefault.freeNames : FieldDefault → List String
  | .emptyList => ["list"]
  | .value v => v.freeNames
  | _ => []

/-- The names that what is assigned to a field refers to. -/
def ModelField.freeNames (f : ModelField) : List String :=
  (if f.description.isSome then ["Field"] else []) ++ f.default.freeNames

/-- The name of a field on the wire. -/
def ModelField.wire (f : ModelField) : String := f.wireName.getD f.name

/-- The free names of some fields that fields before them hide. -/
def capturedFields : List ModelField → List String
  | [] => []
  | f :: rest =>
    (if f.name ∈ rest.flatMap (·.freeNames) then [f.name] else []) ++ capturedFields rest

/-- The free names of a model that its fields hide. -/
def ModelClass.captured (c : ModelClass) : List String := capturedFields c.fields

/-! ## Clients -/

/-- The free names of generated source that do not begin with a capital. -/
def smallNames : List String :=
  ["build_url", "build_headers", "encode_body", "decode_body", "media_type_matches",
    "join_url", "list", "datetime", "nan", "inf"]

/-- Those of them that a name in a style can be. -/
def NamingStyle.smallNames : NamingStyle → List String
  | .snake => Wadl.smallNames
  | .camel => Wadl.smallNames.filter (!·.toList.contains '_')

/-- All accessors of a client. -/
def ClientModule.accessors (m : ClientModule) : List Accessor :=
  m.classes.flatMap (·.accessors) ++ m.entry.accessors

/-- All models of a client. -/
def ClientModule.allModels (m : ClientModule) : List ModelClass :=
  m.models ++ m.classes.flatMap (·.nested)

/-- A free name is hidden in a client if and only if it is one that a name in the chosen style can
be, and what an argument or a field is declared as has it in this style. -/
structure ClientModule.CapturesSpelled (style : NamingStyle) (m : ClientModule) : Prop where
  operations : ∀ c ∈ m.classes, ∀ op ∈ c.operations, ∀ name, name ∈ op.captured ↔
    name ∈ style.smallNames ∧ name ∈ op.freeNames ∧ ∃ key ∈ op.passed, style.identifier key = name
  accessors : ∀ a ∈ m.accessors, ∀ name, name ∈ a.captured ↔
    name ∈ style.smallNames ∧ name ∈ a.freeNames ∧ ∃ p ∈ a.args,
      style.identifier p.placeholder = name
  models : ∀ c ∈ m.allModels, ∀ name, name ∈ c.captured ↔
    name ∈ style.smallNames ∧ ∃ before f after, c.fields = before ++ f :: after ∧
      style.identifier f.wire = name ∧ name ∈ after.flatMap (·.freeNames)

/-! ## Names that can be hidden -/

/-- The names that emitted code refers to are neither reserved nor end with an underscore, so a
spelled name is one of them only if it is written so. -/
theorem smallNames_plain :
    ∀ name ∈ smallNames, name ∉ reservedWords ∧ name.toList.getLast? ≠ some '_' := by
  decide

/-- A name in camel case has no underscore. -/
theorem mem_style_smallNames {style : NamingStyle} {text : String} :
    style.identifier text ∈ style.smallNames ↔ style.identifier text ∈ smallNames := by
  cases style with
  | snake => exact Iff.rfl
  | camel =>
    refine ⟨fun h => (List.mem_filter.1 h).1, fun h => List.mem_filter.2 ⟨h, ?_⟩⟩
    rw [Bool.not_eq_true', ← Bool.not_eq_true, List.contains_iff_mem]
    intro hmem
    exact absurd (alphanumeric_camel text '_' hmem) (by decide)

/-- A name that an argument or a field hides begins with a capital, or is one of the small names. -/
def Refers (name : String) : Prop := Capital name ∨ name ∈ smallNames

theorem refers_of_check {name : String} (h : (smallNames.contains name ||
    name.toList.head?.any CharClass.isAsciiUpper && name.toList.all fun c =>
      decide (IsNameChar c)) = true) :
    Refers name := by
  simp only [Bool.or_eq_true, Bool.and_eq_true, List.contains_iff_mem] at h
  exact h.symm.imp_left fun hcapital => capital_of_check hcapital.1 hcapital.2

/-- A text is given a name that is referred to if and only if it has this name, and this is a small
one. -/
theorem spelled_iff {style : NamingStyle} {text name : String} (h : Refers name) :
    style.spelled text = name ↔ name ∈ style.smallNames ∧ style.identifier text = name := by
  have hplain : ∀ {name},
      name ∈ smallNames → (style.spelled text = name ↔ style.identifier text = name) := by
    intro name hname
    obtain ⟨hreserved, hlast⟩ := smallNames_plain name hname
    exact NameScope.escaped_eq_iff hreserved hlast
  constructor
  · rintro rfl
    have hsmall :=
      h.resolve_left fun hcapital => hcapital.ne_small ((small_identifier style text).escaped _) rfl
    have htext := (hplain hsmall).1 rfl
    rw [← htext] at hsmall ⊢
    exact ⟨mem_style_smallNames.2 hsmall, rfl⟩
  · rintro ⟨hsmall, rfl⟩
    exact (hplain (mem_style_smallNames.1 hsmall)).2 rfl

/-- The argument that holds the body hides nothing. -/
theorem not_refers_body : ¬Refers "body" := by
  rintro (hcapital | hsmall)
  · exact hcapital.ne_small (small_snake "body") (by decide)
  · revert hsmall
    decide

/-! ## What is referred to -/

/-- Emitted code refers to names of types and to a few small names, and to nothing else; so it is
for each piece of code below. -/
theorem ValueExpr.refers {v : ValueExpr} (h : ∀ x ∈ v.mentions, Capital x.root) :
    ∀ name ∈ v.freeNames, Refers name := by
  cases v with
  | literal l =>
    have hsmall : ∀ name ∈ l.freeNames, name ∈ smallNames := by
      unfold Literal.freeNames
      split <;> decide
    exact fun name hname => Or.inr (hsmall name hname)
  | member e name => exact List.forall_mem_singleton.2 (Or.inl (h _ List.mem_cons_self))
  | argument name => simp [ValueExpr.freeNames]

theorem Choice.refers {c : Choice} (h : ∀ x ∈ c.mentions, Capital x.root) :
    ∀ name ∈ c.freeNames, Refers name := by
  refine List.forall_mem_cons.2
    ⟨refers_of_check (by decide), List.forall_mem_map.2 fun ref href => ?_⟩
  exact Or.inl (h _ (List.mem_append_left _ (List.mem_map_of_mem href)))

theorem formScript_refers {isError : Bool} {cs : List Choice}
    (h : ∀ c ∈ cs, ∀ x ∈ c.mentions, Capital x.root) :
    ∀ name ∈ freeNamesAll (formScript isError cs), Refers name := by
  induction cs with
  | nil => exact List.forall_mem_singleton.2 (refers_of_check (by decide))
  | cons c rest ih =>
    obtain ⟨hc, hrest⟩ := List.forall_mem_cons.1 h
    have hending : ∀ name ∈ (c.ending isError).freeNames, Refers name := by
      have hform : ∀ name ∈ (some c).toList.flatMap Choice.freeNames, Refers name := by
        simpa using Choice.refers hc
      cases isError
      · exact hform
      · exact List.forall_mem_cons.2 ⟨refers_of_check (by decide), hform⟩
    rw [formScript]
    split
    · simpa [freeNamesAll, freeNames] using hending
    · simp only [freeNamesAll, freeNames, ResponseTest.freeNames, List.append_nil, List.cons_append,
        List.nil_append, List.forall_mem_cons, List.forall_mem_append]
      exact ⟨refers_of_check (by decide), hending, ih hrest⟩

theorem Operation.script_refers {op : Operation}
    (h : ∀ b ∈ op.branches, ∀ c ∈ b.choices, ∀ x ∈ c.mentions, Capital x.root) :
    ∀ name ∈ freeNamesAll op.script, Refers name := by
  unfold Operation.script responseScript
  rw [freeNamesAll_append, List.forall_mem_append]
  refine ⟨?_, List.forall_mem_singleton.2 (refers_of_check (by decide))⟩
  generalize op.branches = bs at h
  induction bs with
  | nil => simp [freeNamesAll]
  | cons b bs ih =>
    obtain ⟨hb, hbs⟩ := List.forall_mem_cons.1 h
    have hbody : ∀ name ∈ freeNamesAll b.body, Refers name := by
      unfold Branch.body Branch.bodyless
      split
      · cases b.isError
        · simp [freeNamesAll, Statement.freeNames, Ending.freeNames]
        · exact List.forall_mem_singleton.2 (refers_of_check (by decide))
      · exact formScript_refers hb
    have htest : b.test.freeNames = [] := by
      unfold Branch.test
      split <;> rfl
    rw [List.map_cons, freeNamesAll, Branch.statement, Statement.freeNames, htest, List.nil_append,
      List.forall_mem_append]
    exact ⟨hbody, ih hbs⟩

/-- All of an operation does so. -/
theorem Operation.refers {op : Operation} (h : ∀ x ∈ op.mentions, Capital x.root) :
    ∀ name ∈ op.freeNames, Refers name := by
  rw [Operation.mentions, List.forall_mem_append, List.forall_mem_append,
    List.forall_mem_flatMap (l := op.branches)] at h
  obtain ⟨⟨-, hvalues⟩, hbranches⟩ := h
  have hsent : ∀ name ∈ op.sent.flatMap (·.2.freeNames), Refers name :=
    List.forall_mem_flatMap.2 fun e he => ValueExpr.refers (List.forall_mem_flatMap.1 hvalues e he)
  simp only [Operation.freeNames, List.forall_mem_append, List.forall_mem_cons, List.cons_append]
  refine ⟨refers_of_check (by decide), ⟨⟨?_, ?_⟩, hsent⟩,
    Operation.script_refers fun b hb => List.forall_mem_flatMap.1 (hbranches b hb)⟩
  · split
    · simp
    · exact List.forall_mem_singleton.2 (refers_of_check (by decide))
  · split
    · exact List.forall_mem_singleton.2 (refers_of_check (by decide))
    · simp

theorem Accessor.refers {a : Accessor} (h : ∀ x ∈ a.mentions, Capital x.root) :
    ∀ name ∈ a.freeNames, Refers name :=
  List.forall_mem_cons.2 ⟨refers_of_check (by decide),
    List.forall_mem_singleton.2 (Or.inl (h _ List.mem_cons_self))⟩

theorem ModelField.refers {f : ModelField} (h : ∀ x ∈ f.mentions, Capital x.root) :
    ∀ name ∈ f.freeNames, Refers name := by
  obtain ⟨-, hdefault⟩ := List.forall_mem_append.1 h
  refine List.forall_mem_append.2 ⟨?_, ?_⟩
  · split
    · exact List.forall_mem_singleton.2 (refers_of_check (by decide))
    · simp
  · cases hd : f.default with
    | emptyList => exact List.forall_mem_singleton.2 (refers_of_check (by decide))
    | value v =>
      rw [hd] at hdefault
      exact ValueExpr.refers hdefault
    | _ => simp [FieldDefault.freeNames]

/-- A field hides a name from the fields that come after it. -/
theorem mem_capturedFields {name : String} {fields : List ModelField} :
    name ∈ capturedFields fields ↔ ∃ before f after, fields = before ++ f :: after ∧ f.name = name ∧
      name ∈ after.flatMap (·.freeNames) := by
  induction fields with
  | nil => simp [capturedFields]
  | cons f rest ih =>
    rw [capturedFields, List.mem_append, ih]
    constructor
    · rintro (hfirst | ⟨before, g, after, rfl, hg⟩)
      · split at hfirst
        · rename_i hmem
          obtain rfl := List.mem_singleton.1 hfirst
          exact ⟨[], f, rest, rfl, rfl, hmem⟩
        · cases hfirst
      · exact ⟨f :: before, g, after, rfl, hg⟩
    · rintro ⟨_ | ⟨x, before⟩, g, after, hsplit, rfl, hmem⟩
      · obtain ⟨rfl, rfl⟩ := List.cons.inj hsplit
        rw [if_pos hmem]
        exact Or.inl List.mem_cons_self
      · obtain ⟨rfl, rfl⟩ := List.cons.inj hsplit
        exact Or.inr ⟨before, g, after, rfl, rfl, hmem⟩

namespace Build

variable {env : Env}

/-! ## What arguments and fields are called -/

/-- Whatever is known by its name in the module begins with a capital. -/
theorem capital_of_knows {config : ClientConfig} (htypes : NamesTypes config env.table)
    (hclasses : ∀ x ∈ env.classNames, Capital x.2) {x : Mention} (h : Knows env x) :
    Capital x.root := by
  have hclass : ∀ {place name}, env.classNames.lookup place = some name → Capital name :=
    fun hlookup => hclasses _ (mem_of_lookup hlookup)
  cases x with
  | resource name =>
    obtain ⟨place, hplace⟩ := h
    exact hclass (classAt_ok.1 hplace)
  | model ref =>
    obtain ⟨c, hc, rfl⟩ := h
    show Capital ((c.owner.bind fun owner => env.classNames.lookup owner.place).getD c.name)
    cases howner : c.owner.bind fun owner => env.classNames.lookup owner.place with
    | none => exact htypes.capital.1 c hc
    | some name =>
      obtain ⟨owner, -, hlookup⟩ := Option.bind_eq_some_iff.1 howner
      exact hclass hlookup
  | enum name =>
    obtain ⟨e, he, rfl⟩ := h
    exact htypes.capital.2 e he
  | member name member =>
    obtain ⟨e, he, rfl, -⟩ := h
    exact htypes.capital.2 e he

/-- Arguments are spelled as their placeholders, with nothing added to make them unique. -/
theorem placeholderArgs_spelled {decls : List Param} {label : String} {names : List String}
    {scope : NameScope} {args : List PlaceholderArg} (hscope : scope.reserved = reservedWords)
    (h : placeholderArgs env decls label scope names = .ok args) :
    ∀ p ∈ args, p.name = env.config.style.spelled p.placeholder := by
  induction names generalizing scope args with
  | nil =>
    obtain rfl := Except.ok.inj h
    simp
  | cons name rest ih =>
    rw [placeholderArgs] at h
    split at h
    · exact ih hscope h
    · obtain ⟨⟨given, inner⟩, hgiven, h⟩ := Result.bind_ok.1 h
      obtain ⟨type, -, h⟩ := Result.bind_ok.1 h
      obtain ⟨more, hmore, h⟩ := Result.bind_ok.1 h
      obtain rfl := Result.pure_ok.1 h
      obtain ⟨hname, hinner⟩ := claim_spelled hscope hgiven
      exact List.forall_mem_cons.2 ⟨hname, ih hinner hmore⟩

/-- Fields are spelled as their names on the wire. -/
theorem modelFields_spelled {owner : String} {ps : List Param} {scope : NameScope}
    {fields : List ModelField} {follows : List FollowHelper}
    (hscope : scope.reserved = reservedWords)
    (h : modelFields env owner scope ps = .ok (fields, follows)) :
    ∀ f ∈ fields, f.name = env.config.style.spelled f.wire := by
  induction ps generalizing scope fields follows with
  | nil =>
    obtain ⟨rfl, -⟩ := Prod.mk.inj (Except.ok.inj h)
    simp
  | cons p rest ih =>
    rw [modelFields] at h
    obtain ⟨⟨name, scope₁⟩, hname, h⟩ := Result.bind_ok.1 h
    obtain ⟨type, -, h⟩ := Result.bind_ok.1 h
    obtain ⟨field, hfield, h⟩ := Result.bind_ok.1 h
    obtain ⟨⟨helpers, scope₂⟩, hhelpers, h⟩ := Result.bind_ok.1 h
    obtain ⟨⟨fields', more⟩, hrest, h⟩ := Result.bind_ok.1 h
    obtain ⟨rfl, -⟩ := Prod.mk.inj (Result.pure_ok.1 h)
    obtain ⟨hspelled, hscope₁⟩ := claim_spelled hscope hname
    refine List.forall_mem_cons.2
      ⟨?_, ih ((followHelpers_take hhelpers).reserved.trans hscope₁) hrest⟩
    rw [modelField_name hfield, ModelField.wire, modelField_wireName hfield, hspelled]

variable (env) in
/-- The arguments that the values of a draft pass on have the names that the values are sent
with. -/
structure Draft.Spelled (d : Draft) : Prop where
  reserved : d.scope.reserved = reservedWords
  values : ∀ style, ∀ e ∈ d.values style, ∀ name, e.2.argument? = some name →
    name = env.config.style.spelled e.1

/-- Supplying a param adds an argument that is spelled as the param. -/
theorem supply_spelled {d d' : Draft} {p : Param} {source : String} {required : Bool}
    (hd : d.Spelled env) (h : Yields (supply env d p source required) d') : d'.Spelled env := by
  obtain ⟨v, added, hcontributes, -, hvalues, htakes, -⟩ := supply_yields hd.reserved h
  refine ⟨htakes.reserved.trans hd.reserved, fun style e he name hname => ?_⟩
  rw [hvalues] at he
  split at he
  · rcases List.mem_append.1 he with he | he
    · exact hd.values style e he name hname
    · obtain rfl := List.mem_singleton.1 he
      cases hcontributes with
      | literal _ _ hv =>
        rw [valueExpr_argument? hv] at hname
        cases hname
      | argument => exact (Option.some.inj hname).symm
  · exact hd.values style e he name hname

/-- A body is sent from an argument of its own name. -/
theorem sentBody_argument {m : Placed Method} {d d' : Draft} {body : Option SentBody}
    (hscope : d.scope.reserved = reservedWords) (h : sentBody env m d = .ok (body, d')) :
    ∀ b ∈ body, b.argument = "body" := by
  rw [sentBody] at h
  split at h
  · obtain ⟨rfl, -⟩ := Prod.mk.inj (Result.pure_ok.1 h)
    simp
  · obtain ⟨reps, -, h⟩ := Result.bind_ok.1 h
    split at h
    · obtain ⟨rfl, -⟩ := Prod.mk.inj (Result.pure_ok.1 h)
      simp
    · obtain ⟨⟨name, scope⟩, hname, h⟩ := Result.bind_ok.1 h
      obtain ⟨rfl, -⟩ := Prod.mk.inj (Result.pure_ok.1 h)
      rintro b ⟨⟩
      have hbody : d.scope.escaped "body" = "body" :=
        (NameScope.escaped_eq_iff (hscope ▸ by decide) (by decide)).2 rfl
      exact (claim_takes hname).2.trans hbody

/-- The arguments of an operation are the body and those that its values pass on, which have the
names that the values are sent with. -/
theorem operation_spelled {c : Container} {className : String} {methods : List (Placed Method)}
    {scope scope' : NameScope} {m : Placed Method} {op : Operation}
    (h : Yields (operation env c className methods scope m) (op, scope')) :
    (∀ e ∈ op.sent, ∀ name, e.2.argument? = some name → name = env.config.style.spelled e.1) ∧
      (op.args.map (·.name)).Perm (op.used ++ (op.body.map (·.argument)).toList) ∧
      ∀ b ∈ op.body, b.argument = "body" := by
  obtain ⟨request, own, -, -, hsends⟩ := operation_sends h
  obtain ⟨left, d₁, d₂, d₃, d₄, hsteps, -, -, -, -, htemplate, hmatrix, hquery, hheader⟩ :=
    operation_yields h
  have hd₃ : d₃.Spelled env := hsteps.keeps (Draft.Spelled env)
    (fun label => ⟨rfl, fun style e he => by cases style <;> cases he⟩)
    (fun d name hd =>
      ⟨hd.reserved, fun style => by have := hd.values style; cases style <;> exact this⟩)
    fun _ _ _ _ _ => supply_spelled
  obtain ⟨-, -, hvalues, -⟩ := sentBody_yields hsteps.body
  refine ⟨fun e he => ?_, hsends.used, sentBody_argument hd₃.reserved hsteps.body⟩
  have hstyle : ∃ style, e ∈ d₄.values style := by
    rw [Operation.sent, htemplate, hmatrix, hquery, hheader] at he
    simp only [List.mem_append] at he
    rcases he with ((he | he) | he) | he
    exacts [⟨.template, he⟩, ⟨.matrix, he⟩, ⟨.query, he⟩, ⟨.header, he⟩]
  obtain ⟨style, he⟩ := hstyle
  rw [hvalues] at he
  exact hd₃.values style e he

/-! ## What is hidden -/

/-- An operation hides a small name just if one of its arguments has it. -/
theorem operation_captured {c : Container} {className : String} {methods : List (Placed Method)}
    {scope scope' : NameScope} {m : Placed Method} {op : Operation}
    (hfree : ∀ name ∈ op.freeNames, Refers name)
    (h : Yields (operation env c className methods scope m) (op, scope')) (name : String) :
    name ∈ op.captured ↔ name ∈ env.config.style.smallNames ∧ name ∈ op.freeNames ∧
      ∃ key ∈ op.passed, env.config.style.identifier key = name := by
  obtain ⟨hspelled, hargs, hbody⟩ := operation_spelled h
  have hused : ∀ name ∈ op.freeNames,
      (name ∈ op.args.map (·.name) ↔ ∃ e ∈ op.sent, e.2.argument? = some name) := by
    intro name hname
    rw [hargs.mem_iff, List.mem_append, ← List.mem_filterMap]
    refine or_iff_left fun hmem => ?_
    obtain ⟨b, hb, rfl⟩ := Option.map_eq_some_iff.1 (Option.mem_toList.1 hmem)
    rw [hbody b hb] at hname
    exact not_refers_body (hfree _ hname)
  rw [Operation.captured, List.mem_filter, List.contains_iff_mem]
  constructor
  · rintro ⟨harg, hname⟩
    obtain ⟨e, he, hv⟩ := (hused name hname).1 harg
    obtain ⟨hsmall, hkey⟩ := (spelled_iff (hfree name hname)).1 (hspelled e he name hv).symm
    exact ⟨hsmall, hname, e.1, List.mem_map_of_mem (List.mem_filter.2 ⟨he, by simp [hv]⟩), hkey⟩
  · rintro ⟨hsmall, hname, key, hkey, hidentifier⟩
    obtain ⟨e, he, rfl⟩ := List.mem_map.1 hkey
    obtain ⟨he, hsome⟩ := List.mem_filter.1 he
    obtain ⟨given, hv⟩ := Option.isSome_iff_exists.1 hsome
    have hgiven :=
      (hspelled e he given hv).trans ((spelled_iff (hfree name hname)).2 ⟨hsmall, hidentifier⟩)
    exact ⟨(hused name hname).2 ⟨e, he, hgiven ▸ hv⟩, hname⟩

/-- So does an accessor. -/
theorem accessors_captured {scope : NameScope}
    {wanted : List ((Container × Resource × UrlBase) × String)} {as : List Accessor}
    (hfree : ∀ a ∈ as, ∀ name ∈ a.freeNames, Refers name)
    (h : Yields (accessors env scope wanted) as) :
    ∀ a ∈ as, ∀ name, name ∈ a.captured ↔ name ∈ env.config.style.smallNames ∧ name ∈ a.freeNames ∧
      ∃ p ∈ a.args, env.config.style.identifier p.placeholder = name := by
  have hspelled : ∀ a ∈ as, ∀ p ∈ a.args, p.name = env.config.style.spelled p.placeholder := by
    refine accessors_induct (fun _ _ as => ∀ a ∈ as, ∀ p ∈ a.args,
      p.name = env.config.style.spelled p.placeholder) (by simp) ?_ h
    intro scope scope' child res base name rest a as ha ih
    obtain ⟨-, -, decls, -, hargs⟩ := accessor_yields ha
    exact List.forall_mem_cons.2 ⟨placeholderArgs_spelled rfl hargs, ih⟩
  intro a ha name
  rw [Accessor.captured, List.mem_filter, List.contains_iff_mem, List.mem_map]
  constructor
  · rintro ⟨⟨p, hp, rfl⟩, hname⟩
    obtain ⟨hsmall, hkey⟩ := (spelled_iff (hfree a ha _ hname)).1 (hspelled a ha p hp).symm
    exact ⟨hsmall, hname, p, hp, hkey⟩
  · rintro ⟨hsmall, hname, p, hp, hkey⟩
    exact ⟨⟨p, hp,
      (hspelled a ha p hp).trans ((spelled_iff (hfree a ha _ hname)).2 ⟨hsmall, hkey⟩)⟩, hname⟩

/-- A model hides a small name just if a field has it and one after it refers to it. -/
theorem modelClass_captured {t : CanonicalType} {model : ModelClass}
    (hfree : ∀ f ∈ model.fields, ∀ name ∈ f.freeNames, Refers name)
    (h : Yields (modelClass env t) model) (name : String) :
    name ∈ model.captured ↔ name ∈ env.config.style.smallNames ∧ ∃ before f after,
      model.fields = before ++ f :: after ∧ env.config.style.identifier f.wire = name ∧
        name ∈ after.flatMap (·.freeNames) := by
  have hspelled := modelFields_spelled rfl (modelClass_yields h).2
  -- what later fields refer to is referred to
  have hlater : ∀ {before f after}, model.fields = before ++ f :: after →
      name ∈ after.flatMap (·.freeNames) →
      (f.name = name ↔ name ∈ env.config.style.smallNames ∧
        env.config.style.identifier f.wire = name) := by
    intro before f after hfields hname
    obtain ⟨g, hg, hname⟩ := List.mem_flatMap.1 hname
    rw [hspelled f (hfields ▸ List.mem_append_cons_self)]
    exact spelled_iff
      (hfree g (hfields ▸ List.mem_append_right _ (List.mem_cons_of_mem f hg)) name hname)
  rw [ModelClass.captured, mem_capturedFields]
  constructor
  · rintro ⟨before, f, after, hfields, hname, hmem⟩
    obtain ⟨hsmall, hkey⟩ := (hlater hfields hmem).1 hname
    exact ⟨hsmall, before, f, after, hfields, hkey, hmem⟩
  · rintro ⟨hsmall, before, f, after, hfields, hkey, hmem⟩
    exact ⟨before, f, after, hfields, (hlater hfields hmem).2 ⟨hsmall, hkey⟩, hmem⟩

end Build

/-! ## Clients -/

/-- A free name is hidden in a client if and only if it is a small name that the name on the wire of
an argument or of an earlier field has in the chosen style. -/
theorem captured_iff {r : Resolution} {config : ClientConfig} {table : TypeTable}
    {s t : List Notice} (hu : Gives (unify r config) s table t) {m : ClientModule}
    {s' t' : List Notice} (hm : Gives (buildModule r table config) s' m t') :
    m.CapturesSpelled config.style := by
  obtain ⟨classNames, hbuilt⟩ := Build.built_of_yields hm.yields
  have htypes := unify_names hu.yields
  obtain ⟨given, htakes, -, -⟩ := htypes.given
  obtain ⟨-, hclassNames⟩ :=
    Build.claimClasses_takes (htakes.reserved.trans (moduleScope_reserved config)) hbuilt.classNames
  let env : Build.Env := ⟨r, table, config, classNames, r.containers⟩
  have hroots : ∀ {xs : List Mention}, Build.KnowsAll env xs → ∀ x ∈ xs, Capital x.root :=
    fun hxs x hx =>
    Build.capital_of_knows htypes (fun y hy => (hclassNames y hy).1) (hxs x hx)
  have haccessors : ∀ {scope wanted as}, Yields (Build.accessors env scope wanted) as →
      ∀ a ∈ as, ∀ name, name ∈ a.captured ↔ name ∈ config.style.smallNames ∧ name ∈ a.freeNames ∧
        ∃ p ∈ a.args, config.style.identifier p.placeholder = name := fun has =>
    Build.accessors_captured
      (fun a ha => Accessor.refers (hroots (Build.accessors_know has a ha))) has
  refine ⟨fun c hc op hop => ?_, fun a ha => ?_, fun model hmodel => ?_⟩
  · obtain ⟨container, hmade⟩ := hbuilt.exists_classMade hc
    obtain ⟨methods, scope, -, hops, -⟩ := hmade.members
    obtain ⟨method, -, inner, inner', hyields⟩ :=
      exists_left_of_forall₂ (Build.operations_forall₂ hops) hop
    exact Build.operation_captured
      (Operation.refers (hroots (Build.operation_knows hyields))) hyields
  · rcases List.mem_append.1 ha with ha | ha
    · obtain ⟨c, hc, ha⟩ := List.mem_flatMap.1 ha
      obtain ⟨container, hmade⟩ := hbuilt.exists_classMade hc
      obtain ⟨methods, scope, -, -, has⟩ := hmade.members
      exact haccessors has a ha
    · obtain ⟨scope, wanted, has⟩ := hbuilt.exists_entryAccessors
      exact haccessors has a ha
  · obtain ⟨type, -, hyields⟩ := hbuilt.exists_modelClass hmodel
    have hknown := Build.modelClass_knows hyields
    rw [ModelClass.mentions, Build.knowsAll_append, Build.knowsAll_flatMap] at hknown
    exact Build.modelClass_captured (fun f hf => ModelField.refers (hroots (hknown.1 f hf))) hyields

/-- A description whose params are called as what generated source refers to. -/
def hidingNames : Application :=
  let answer : RepresentationItem := .inline ⟨some "shelf", none, none, none,
    [.inline { name := "list", style := .plain },
      .inline { name := "book", style := .plain, repeating := true }], []⟩
  let shelf : Resource := ⟨none, some "{join_url}", [], formMediaType,
    [.inline { name := "join_url", style := .template }],
    [.inline ⟨"GET", none, some ⟨[.inline { name := "build_url", style := .query }], [], []⟩,
      [⟨[], [], [answer], []⟩], []⟩], [], []⟩
  ⟨"http://h/d", [], [], [⟨some "http://h/", [shelf]⟩], [], [], [], []⟩

/-- The names that the operations, the accessors and the models of a client hide. -/
def ClientModule.hidden (m : ClientModule) : List (List String) :=
  [m.classes.flatMap fun c => c.operations.flatMap (·.captured), m.accessors.flatMap (·.captured),
    m.allModels.flatMap (·.captured)]

theorem captured_iff_hidingNames :
    let r : Resolution := ⟨hidingNames, [], [("http://h/d", hidingNames)]⟩
    let hides (style : NamingStyle) (hidden : List (List String)) : Prop :=
      ∃ table t m t', Gives (unify r { style }) [] table t ∧
        Gives (buildModule r table { style }) t m t' ∧ m.CapturesSpelled style ∧ m.hidden = hidden
    hides .snake [["build_url"], ["join_url"], ["list"]] ∧ hides .camel [[], [], ["list"]] := by
  intro r hides
  have hhides : ∀ {style hidden},
      (Id.run ((Build.typedClient r { style }).run.run [])).1.toOption.any
      (fun x => decide (x.2.hidden = hidden)) = true → hides style hidden := by
    intro style hidden hrun
    obtain ⟨⟨table, m⟩, t', h, hhidden⟩ := exists_gives_of_any hrun
    obtain ⟨t, hu, hm⟩ := Build.typedClient_gives h
    exact ⟨table, t, m, t', hu, hm, captured_iff hu hm, of_decide_eq_true hhidden⟩
  exact ⟨hhides (by decide +kernel), hhides (by decide +kernel)⟩

end Wadl
