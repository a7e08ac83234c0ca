import Wadl.Proofs.Alike
import Wadl.Proofs.Client.Modes

/-!
# Clients with and without documentation

Whether a client has documentation, and whether code is left out of it, reaches nothing but the
documentation. Two builds with other such settings tell different things on the way, so they are
compared step by step as computations that are alike: what each function builds is the same once its
documentation is taken out (`undocumented`), one lemma for each function of the builder
(`buildModule_alike`). Documentation is never blank where it stands (`IsDocstring`), so that a class
that is laid out has a body with it and without it (`ClassText.body_ne_nil`).
-/

namespace Wadl

/-- Settings with documentation or without it, and with the code in it or without that. -/
def ClientConfig.withDocs (config : ClientConfig) (includeDocs skipCode : Bool) : ClientConfig :=
  { config with includeDocs, skipCode }

/-! ## Without documentation -/

def ModelClass.undocumented (m : ModelClass) : ModelClass := { m with doc := none }

def Accessor.undocumented (a : Accessor) : Accessor := { a with doc := none }

def Argument.undocumented (a : Argument) : Argument := { a with doc := "" }

def Operation.undocumented (op : Operation) : Operation :=
  { op with args := op.args.map Argument.undocumented, doc := none }

def ResourceClass.undocumented (c : ResourceClass) : ResourceClass :=
  { c with
    doc := none
    nested := c.nested.map ModelClass.undocumented
    operations := c.operations.map Operation.undocumented
    accessors := c.accessors.map Accessor.undocumented }

def EntryClass.undocumented (c : EntryClass) : EntryClass :=
  { c with doc := "", accessors := c.accessors.map Accessor.undocumented }

/-- A client without its documentation. -/
def ClientModule.undocumented (m : ClientModule) : ClientModule :=
  { m with
    doc := ""
    models := m.models.map ModelClass.undocumented
    classes := m.classes.map ResourceClass.undocumented
    entry := m.entry.undocumented }

/-- Lists are the same without documentation if their elements are, one by one. -/
theorem map_eq_map_of_forall₂ {α β : Type} {f : α → β} {xs ys : List α}
    (h : List.Forall₂ (fun x y => f x = f y) xs ys) : xs.map f = ys.map f := by
  induction h with
  | nil => rfl
  | cons hxy _ ih => rw [List.map_cons, List.map_cons, hxy, ih]

/-! ## Documentation -/

/-- A text between quotes. -/
def IsDocstring (text : String) : Prop := ∃ inner, text = "\"\"\"" ++ inner ++ "\"\"\""

/-- A docstring that is written is one. -/
theorem isDocstring_of_docstring {text doc : String} (h : docstring text = some doc) :
    IsDocstring doc := by
  simp only [docstring] at h
  split at h
  · cases h
  · rw [← Option.some.inj h]
    exact ⟨_, congrArg (· ++ _) String.append_assoc⟩

namespace Build

variable {env : Env} {isAsync includeDocs skipCode : Bool}

/-- Cleaning documentation never fails. -/
theorem always_noticedText (env : Env) (docs : List Doc) :
    Always (noticedText env docs) (docsText env.config.skipCode docs).1 :=
  (always_modify _).bind (always_pure _)

/-- Documentation is found without fail; where there is any, it stands between quotes. -/
theorem exists_docOf (env : Env) (docs : List Doc) :
    ∃ doc, Always (docOf env docs) doc ∧ ∀ text, doc = some text → IsDocstring text := by
  unfold docOf
  split
  · exact ⟨_, (always_noticedText env docs).bind (always_pure _), fun _ => isDocstring_of_docstring⟩
  · exact ⟨none, always_pure none, fun _ h => nomatch h⟩

/-- The documentation of an operation never fails. -/
theorem exists_operationDoc (env : Env) (m : Method) (args : List Argument) :
    ∃ doc, Always (operationDoc env m args) doc := by
  unfold operationDoc
  split
  · refine (always_noticedText env m.docs).exists_bind ?_
    dsimp only
    split
    · exact ⟨_, always_pure _⟩
    · exact ⟨_, always_pure _⟩
  · exact ⟨none, always_pure none⟩

/-- Whether documentation is asked for changes no failure. -/
theorem docOf_alike (docs : List Doc) :
    Alike (fun _ _ => True) (docOf (env.restyled isAsync includeDocs skipCode) docs)
      (docOf env docs) := by
  obtain ⟨_, h, -⟩ := exists_docOf (env.restyled isAsync includeDocs skipCode) docs
  obtain ⟨_, h', -⟩ := exists_docOf env docs
  exact .of_always h h' trivial

/-- Operations have documentation or none, without a difference to failures. -/
theorem operationDoc_alike (m : Method) (args args' : List Argument) :
    Alike (fun _ _ => True) (operationDoc (env.restyled isAsync includeDocs skipCode) m args)
      (operationDoc env m args') := by
  obtain ⟨_, h⟩ := exists_operationDoc (env.restyled isAsync includeDocs skipCode) m args
  obtain ⟨_, h'⟩ := exists_operationDoc env m args'
  exact .of_always h h' trivial

/-! ## Models and accessors -/

/-- A model is the same with and without documentation, apart from it. -/
theorem modelClass_alike (c : CanonicalType) :
    Alike (fun a b => a.undocumented = b.undocumented)
      (modelClass (env.restyled isAsync includeDocs skipCode) c) (modelClass env c) := by
  simp only [modelClass, modelFields_restyled]
  refine (Alike.lift_self _).bind ?_
  rintro ⟨fields, follows⟩ _ rfl
  exact (docOf_alike _).bind fun _ _ _ => .pure rfl

/-- An accessor is the same with and without documentation, apart from it, and so are the names that
are taken. -/
theorem accessor_alike (scope : NameScope) (child : Container) (r : Resource) (base : UrlBase)
    (wanted : String) : Alike (fun a b => a.1.undocumented = b.1.undocumented ∧ a.2 = b.2)
      (accessor (env.restyled isAsync includeDocs skipCode) scope child r base wanted)
      (accessor env scope child r base wanted) := by
  simp only [accessor, templateDecls_restyled, placeholderArgs_restyled]
  -- the name is claimed in one of two ways, and what follows is the same
  split <;> refine Alike.bind (R := Eq) ?_ ?_
  case isTrue.refine_1 => exact .lift_self _
  case isFalse.refine_1 => exact .pure rfl
  all_goals
    rintro ⟨name, scope⟩ _ rfl
    refine (Alike.lift_self _).bind fun decls _ => ?_
    rintro rfl
    refine (Alike.lift_self _).bind fun args _ => ?_
    rintro rfl
    refine (Alike.lift_self _).bind fun target _ => ?_
    rintro rfl
    exact (docOf_alike r.docs).bind fun _ _ _ => .pure ⟨rfl, rfl⟩

theorem accessors_alike {children : List ((Container × Resource × UrlBase) × String)}
    {scope : NameScope} :
    Alike (fun as bs => as.map Accessor.undocumented = bs.map Accessor.undocumented)
      (accessors (env.restyled isAsync includeDocs skipCode) scope children)
      (accessors env scope children) := by
  induction children generalizing scope with
  | nil => exact .pure rfl
  | cons child rest ih =>
    obtain ⟨⟨c, r, base⟩, name⟩ := child
    rw [accessors, accessors]
    refine (accessor_alike scope c r base name).bind ?_
    rintro ⟨a, scope⟩ ⟨b, _⟩ ⟨hab, rfl⟩
    refine ih.bind fun as bs habs => .pure ?_
    rw [List.map_cons, List.map_cons, hab, habs]

theorem namedAccessors_alike {scope : NameScope}
    {children : List (Container × Resource × UrlBase)} :
    Alike (fun as bs => as.map Accessor.undocumented = bs.map Accessor.undocumented)
      (namedAccessors (env.restyled isAsync includeDocs skipCode) scope children)
      (namedAccessors env scope children) :=
  accessors_alike

/-! ## Operations -/

/-- A draft without the documentation of its arguments. -/
def Draft.undocumented (d : Draft) : Draft := { d with args := d.args.map Argument.undocumented }

variable {d d' : Draft}

theorem Draft.undocumented_push (d : Draft) (style : ParamStyle) (entry : String × ValueExpr) :
    (d.push style entry).undocumented = d.undocumented.push style entry := by
  cases style <;> rfl

theorem Draft.values_undocumented (d : Draft) (style : ParamStyle) :
    d.undocumented.values style = d.values style := by
  cases style <;> rfl

/-- A draft with one more argument. -/
theorem Draft.undocumented_extend (d : Draft) (scope : NameScope) (arg : Argument) :
    ({ d with scope, args := d.args ++ [arg] } : Draft).undocumented =
      { d.undocumented with scope, args := d.undocumented.args ++ [arg.undocumented] } := by
  simp [Draft.undocumented]

/-- An argument is the same with and without documentation, apart from it. -/
theorem argument_alike (scope : NameScope) (p : Param) (type : ValueType) (source : String)
    (required : Bool) : Alike (fun a b => a.1.undocumented = b.1.undocumented ∧ a.2 = b.2)
      (argument (env.restyled isAsync includeDocs skipCode) scope p type source required)
      (argument env scope p type source required) := by
  unfold argument
  refine (Alike.lift_self _).bind ?_
  rintro ⟨name, scope⟩ _ rfl
  -- each of the two may have documentation or not, and what follows is the same
  by_cases hnew : (env.restyled isAsync includeDocs skipCode).config.includeDocs = true <;>
    by_cases hold : env.config.includeDocs = true <;>
    simp only [hnew, hold, if_true, if_false, Bool.false_eq_true] <;>
    refine Alike.bind (R := fun _ _ => True) ?_ fun doc doc' _ => ?_
  case pos.refine_1 => exact .of_always (always_noticedText _ _) (always_noticedText _ _) trivial
  case neg.refine_1 => exact .of_always (always_noticedText _ _) (always_pure _) trivial
  case pos.refine_1 => exact .of_always (always_pure _) (always_noticedText _ _) trivial
  case neg.refine_1 => exact .pure trivial
  all_goals
    split
    · exact .pure ⟨rfl, rfl⟩
    · split
      · refine (Alike.lift_self _).bind fun value _ => ?_
        rintro rfl
        exact .pure ⟨rfl, rfl⟩
      · exact .pure ⟨rfl, rfl⟩

/-- Drafts that are the same apart from documentation stay so when a param is added. -/
theorem supply_alike (hd : d.undocumented = d'.undocumented) (p : Param) (source : String)
    (required : Bool) : Alike (fun a b => a.undocumented = b.undocumented)
      (supply (env.restyled isAsync includeDocs skipCode) d p source required)
      (supply env d' p source required) := by
  unfold supply
  refine (Alike.lift_self _).bind fun type _ => ?_
  rintro rfl
  split
  · refine (Alike.lift_self _).bind fun value _ => ?_
    rintro rfl
    refine .pure ?_
    rw [Draft.undocumented_push, Draft.undocumented_push, hd]
  · have hscope : d.scope = d'.scope := (Draft.mk.inj hd).1
    rw [hscope]
    refine (argument_alike d'.scope p type source required).bind ?_
    rintro ⟨a, scope⟩ ⟨b, _⟩ ⟨hab, rfl⟩
    have hname : a.name = b.name := (Argument.mk.inj hab).1
    refine .pure ?_
    have hpush : ∀ (d : Draft) (arg : Argument), ({ d.push p.style (p.name, .argument arg.name) with
        scope, args := d.args ++ [arg] } : Draft).undocumented =
        { d.undocumented.push p.style (p.name, .argument arg.name) with
          scope, args := d.undocumented.args ++ [arg.undocumented] } := by
      intro d arg
      cases p.style <;> simp [Draft.undocumented, Draft.push]
    rw [hpush, hpush, hd, hname, hab]

theorem addParam_alike (hd : d.undocumented = d'.undocumented) (left : List String)
    (isType : Bool) (p : Param) (source : String) :
    Alike (fun a b => a.undocumented = b.undocumented)
      (addParam (env.restyled isAsync includeDocs skipCode) left isType d p source)
      (addParam env left isType d' p source) := by
  have hfilled : d.filled = d'.filled := (Draft.mk.inj hd).2.2.2.2.2.2
  have hvalues : d.values p.style = d'.values p.style := by
    rw [← Draft.values_undocumented, hd, Draft.values_undocumented]
  unfold addParam
  rw [hfilled, hvalues]
  split
  · split
    · exact Alike.modify.bind fun _ _ _ => .pure hd
    · refine supply_alike ?_ p source true
      show ({ d.undocumented with filled := p.name :: d'.filled } : Draft) =
        { d'.undocumented with filled := p.name :: d'.filled }
      rw [hd]
  · split
    · exact .pure hd
    · exact supply_alike hd p source p.required

theorem addRequest_alike (hd : d.undocumented = d'.undocumented)
    (left : List String) (isType : Bool) (label : String) (items : List ParamItem) :
    Alike (fun a b => a.undocumented = b.undocumented)
      (addRequest (env.restyled isAsync includeDocs skipCode) left isType label d items)
      (addRequest env left isType label d' items) := by
  refine Alike.foldlM (fun a b item hab => ?_) items hd
  refine (Alike.lift_self _).bind fun p _ => ?_
  rintro rfl
  exact addParam_alike hab left isType p _

/-- Placeholders are added alike to drafts that are the same apart from documentation. -/
theorem addPlaceholders_alike (hd : d.undocumented = d'.undocumented)
    (left : List String) (isType : Bool) (className : String) (methods : List (Placed Method)) :
    Alike (fun a b => a.undocumented = b.undocumented)
      (addPlaceholders (env.restyled isAsync includeDocs skipCode) left isType className methods d)
      (addPlaceholders env left isType className methods d') := by
  refine Alike.foldlM (fun a b placeholder hab => ?_) left hd
  have hfilled : a.filled = b.filled := (Draft.mk.inj hab).2.2.2.2.2.2
  unfold addPlaceholder
  simp only [placeholderDecl, findTemplate?_restyled, hfilled]
  split
  · exact .pure hab
  · refine (Alike.lift_self _).bind fun p _ => ?_
    rintro rfl
    exact addParam_alike hab left isType p _

theorem addShared_alike (hd : d.undocumented = d'.undocumented) (left : List String) (isType : Bool)
    (className : String) (items : List ParamItem) :
    Alike (fun a b => a.undocumented = b.undocumented)
      (addShared (env.restyled isAsync includeDocs skipCode) left isType className d items)
      (addShared env left isType className d' items) := by
  refine Alike.foldlM (fun a b item hab => ?_) items hd
  refine (Alike.lift_self _).bind fun p _ => ?_
  rintro rfl
  split
  · exact .pure hab
  · exact addParam_alike hab left isType p _

/-- What an operation sends does not depend on documentation. -/
theorem sentBody_agree (hd : d.undocumented = d'.undocumented) (m : Placed Method) :
    Result.Agree (fun a b => a.1 = b.1 ∧ a.2.undocumented = b.2.undocumented)
      (sentBody (env.restyled isAsync includeDocs skipCode) m d) (sentBody env m d') := by
  have hscope : d.scope = d'.scope := (Draft.mk.inj hd).1
  unfold sentBody
  split
  · exact .ok ⟨rfl, hd⟩
  · refine (Result.Agree.of_eq rfl).bind fun reps _ => ?_
    rintro rfl
    have hpreferred : preferred (env.restyled isAsync includeDocs skipCode)
        (fun rep : Placed Representation => rep.value.mediaType) reps =
        preferred env (fun rep => rep.value.mediaType) reps := rfl
    simp only [hpreferred]
    split
    · exact .ok ⟨rfl, hd⟩
    · rw [hscope]
      refine (Result.Agree.of_eq rfl).bind ?_
      rintro ⟨name, scope⟩ _ rfl
      refine .ok ⟨rfl, ?_⟩
      rw [Draft.undocumented_extend, Draft.undocumented_extend, hd]
      rfl

/-- An operation is the same with and without documentation, apart from it. -/
theorem operation_alike (c : Container) (className : String) (methods : List (Placed Method))
    (scope : NameScope) (m : Placed Method) :
    Alike (fun a b => a.1.undocumented = b.1.undocumented ∧ a.2 = b.2)
      (operation (env.restyled isAsync includeDocs skipCode) c className methods scope m)
      (operation env c className methods scope m) := by
  simp only [operation, pending_restyled]
  refine (Alike.lift_self _).bind ?_
  rintro ⟨name, scope⟩ _ rfl
  refine (Alike.lift_self _).bind fun left _ => ?_
  rintro rfl
  refine (addRequest_alike rfl left _ _ _).bind fun d₁ d₁' h₁ => ?_
  refine (addPlaceholders_alike h₁ left _ _ _).bind fun d₂ d₂' h₂ => ?_
  refine (addShared_alike h₂ left _ _ _).bind fun d₃ d₃' h₃ => ?_
  refine (Alike.lift (sentBody_agree h₃ m)).bind ?_
  rintro ⟨body, d⟩ ⟨_, d'⟩ ⟨rfl, hd⟩
  refine (Alike.lift_self _).bind fun accept _ => ?_
  rintro rfl
  refine (Alike.lift_self _).bind fun branches _ => ?_
  rintro rfl
  refine (operationDoc_alike m.value d.args d'.args).bind fun _ _ _ => .pure ⟨?_, rfl⟩
  change d.undocumented = d'.undocumented at hd
  obtain ⟨-, hargs, htemplate, hmatrix, hquery, hheader, -⟩ := Draft.mk.inj hd
  simp only [Operation.undocumented, hargs, htemplate, hmatrix, hquery, hheader]

theorem operations_alike {c : Container} {className : String} {methods ms : List (Placed Method)}
    {scope : NameScope} :
    Alike (fun a b => a.1.map Operation.undocumented = b.1.map Operation.undocumented ∧ a.2 = b.2)
      (operations (env.restyled isAsync includeDocs skipCode) c className methods scope ms)
      (operations env c className methods scope ms) := by
  induction ms generalizing scope with
  | nil => exact .pure ⟨rfl, rfl⟩
  | cons m rest ih =>
    rw [operations, operations]
    refine (operation_alike c className methods scope m).bind ?_
    rintro ⟨op, scope⟩ ⟨op', _⟩ ⟨hop, rfl⟩
    refine ih.bind ?_
    rintro ⟨ops, scope⟩ ⟨ops', _⟩ ⟨hops, rfl⟩
    refine .pure ⟨?_, rfl⟩
    rw [List.map_cons, List.map_cons, hop, hops]

/-! ## Classes -/

/-- A class is the same with and without documentation, apart from it. -/
theorem resourceClass_alike (c : Container) :
    Alike (fun a b => a.undocumented = b.undocumented)
      (resourceClass (env.restyled isAsync includeDocs skipCode) c) (resourceClass env c) := by
  unfold resourceClass
  refine (Alike.lift_self _).bind fun name _ => ?_
  rintro rfl
  refine (Alike.lift_self _).bind fun bases _ => ?_
  rintro rfl
  refine (Alike.mapM modelClass_alike _).bind fun nested nested' hnested => ?_
  refine (Alike.lift_self _).bind fun methods _ => ?_
  rintro rfl
  refine operations_alike.bind ?_
  rintro ⟨ops, scope⟩ ⟨ops', _⟩ ⟨hops, rfl⟩
  refine namedAccessors_alike.bind fun accessors accessors' haccessors => ?_
  refine (docOf_alike _).bind fun _ _ _ => .pure ?_
  simp only [ResourceClass.undocumented, map_eq_map_of_forall₂ hnested, hops, haccessors]

/-- The entry class is the same with and without documentation, apart from it. -/
theorem entryClass_alike :
    Alike (fun a b => a.undocumented = b.undocumented)
      (entryClass (env.restyled isAsync includeDocs skipCode)) (entryClass env) := by
  unfold entryClass
  refine namedAccessors_alike.bind fun accessors accessors' haccessors => ?_
  refine (docOf_alike _).bind fun _ _ _ => .pure ?_
  simp only [EntryClass.undocumented, haccessors]
  rfl

theorem moduleDoc_alike :
    Alike (fun _ _ => True) (moduleDoc (env.restyled isAsync includeDocs skipCode))
      (moduleDoc env) := by
  have hresolution : (env.restyled isAsync includeDocs skipCode).resolution = env.resolution := rfl
  unfold moduleDoc
  dsimp only
  rw [hresolution]
  split
  · exact .pure trivial
  · exact docOf_alike _

end Build

variable {r : Resolution} {config : ClientConfig} {includeDocs skipCode : Bool}

open Build in
/-- What is built with documentation and what is built without it, or with another one, are the same
but for the documentation. -/
theorem buildModule_alike (table : TypeTable) :
    Alike (fun a b => a.undocumented = b.undocumented)
      (buildModule r table (config.withDocs includeDocs skipCode))
      (buildModule r table config) := by
  have henv : ∀ classNames containers,
      (⟨r, table, config.withDocs includeDocs skipCode, classNames, containers⟩ : Env) =
        Env.restyled ⟨r, table, config, classNames, containers⟩ config.isAsync
          includeDocs skipCode :=
    fun _ _ => rfl
  simp only [buildModule, henv]
  refine (Alike.lift_self _).bind fun classNames _ => ?_
  rintro rfl
  refine moduleDoc_alike.bind fun doc doc' _ => ?_
  refine (Alike.mapM modelClass_alike _).bind fun models models' hmodels => ?_
  refine (Alike.mapM resourceClass_alike _).bind fun classes classes' hclasses => ?_
  refine entryClass_alike.bind fun entry entry' hentry => .pure ?_
  simp only [ClientModule.undocumented, map_eq_map_of_forall₂ hmodels,
    map_eq_map_of_forall₂ hclasses, hentry]
  rfl

/-! ## Texts without documentation -/

def ModelText.undocumented (m : ModelText) : ModelText := { m with doc := none }

def OperationText.undocumented (op : OperationText) : OperationText := { op with doc := none }

def ClassText.undocumented (c : ClassText) : ClassText :=
  { c with
    doc := none
    nested := c.nested.map ModelText.undocumented
    operations := c.operations.map OperationText.undocumented
    accessors := c.accessors.map Accessor.undocumented }

/-- The texts of a client without its documentation. -/
def ClientText.undocumented (c : ClientText) : ClientText :=
  { c with
    doc := ""
    models := c.models.map ModelText.undocumented
    classes := c.classes.map ClassText.undocumented
    entry := c.entry.undocumented }

section Undocumented

variable {isAsync : Bool}

/-- The text of a model without documentation is that of the model without its documentation. -/
theorem ModelClass.text_undocumented (m : ModelClass) :
    (m.text isAsync).undocumented = m.undocumented.text isAsync :=
  rfl

/-- The order of arguments does not depend on their documentation. -/
theorem starred_undocumented (args : List Argument) :
    (starred (args.map Argument.undocumented)).map (·.source) = (starred args).map (·.source) := by
  have hsource : ∀ a : Argument, a.undocumented.source = a.source := fun _ => rfl
  induction args with
  | nil => rfl
  | cons a rest ih =>
    have hrequired : a.undocumented.isRequired = a.isRequired := rfl
    rw [List.map_cons, starred, starred, hrequired, List.isEmpty_map]
    split
    · rw [List.map_cons, List.map_cons, ih]
      rfl
    · split
      · simp only [List.map_cons, List.map_nil, SignaturePart.source, hsource]
      · simp only [List.map_cons, List.map_map, Function.comp_def, SignaturePart.source, hsource]

/-- The text of an operation without documentation is that of the operation without its
documentation. -/
theorem Operation.text_undocumented (op : Operation) :
    (op.text isAsync).undocumented = op.undocumented.text isAsync := by
  have hsignature : op.undocumented.signature.map (·.source) = op.signature.map (·.source) := by
    rw [Operation.signature, Operation.signature, List.map_cons, List.map_cons]
    exact congrArg _ (starred_undocumented op.args)
  rw [Operation.text, Operation.text, hsignature]
  rfl

/-- The text of a class without documentation is that of the class without its documentation. -/
theorem ResourceClass.text_undocumented (c : ResourceClass) :
    (c.text isAsync).undocumented = c.undocumented.text isAsync := by
  simp only [ResourceClass.text, ClassText.undocumented, ResourceClass.undocumented, List.map_map,
    Function.comp_def, ModelClass.text_undocumented, Operation.text_undocumented]

end Undocumented

/-- The texts without documentation are those of the client without documentation. -/
theorem ClientModule.text_undocumented (m : ClientModule) :
    m.text.undocumented = m.undocumented.text := by
  simp only [ClientModule.text, ClientText.undocumented, ClientModule.undocumented, List.map_map,
    Function.comp_def, ModelClass.text_undocumented, ResourceClass.text_undocumented]

/-! ## Bodies of classes -/

/-- A part of the body of a class. -/
inductive ClassPart where
  | docstring (text : String)
  /-- A constructor that takes what sends requests, and a value of some type. -/
  | constructor (name type : String)
  | nested (m : ModelText)
  | operation (op : OperationText)
  | accessor (a : Accessor)
  | pass

/-- The lines of a part, given the class that sends requests. -/
def ClassPart.lines (transport : String) : ClassPart → List String
  | docstring text => docLines 4 (some text)
  | constructor name type =>
    ["", "    def __init__(self, transport: " ++ transport ++
      (", " ++ name ++ ": " ++ type ++ "):"),
      "        self._transport = transport", "        self._" ++ name ++ " = " ++ name]
  | nested m => ["", "    " ++ indented 4 m.source]
  | operation op => op.lines
  | accessor a => a.lines
  | pass => ["    pass"]

/-- The body of a class. -/
def ClassText.body (c : ClassText) : List ClassPart :=
  c.doc.toList.map .docstring ++ (if c.bases.isEmpty then [.constructor "url" "str"] else []) ++
    c.nested.map .nested ++ c.operations.map .operation ++ c.accessors.map .accessor ++
    if !c.bases.isEmpty && c.isEmpty then [.pass] else []

/-- The body of the class that a client begins with. -/
def EntryClass.body (c : EntryClass) : List ClassPart :=
  [.docstring c.doc, .constructor "base_url" "str | None = None"] ++ c.accessors.map .accessor

/-- Documentation is printed on lines of its own at the beginning of a class. -/
theorem flatMap_docstring (doc : Option String) (transport : String) :
    (doc.toList.map ClassPart.docstring).flatMap (·.lines transport) = docLines 4 doc := by
  cases doc <;> rfl

/-- A class is laid out as its first line and its body. -/
theorem ClassText.lines_eq (transport : String) (c : ClassText) :
    c.lines transport = (if c.bases.isEmpty then "class " ++ c.name ++ ":"
      else "class " ++ c.name ++ "(" ++ ", ".intercalate c.bases ++ "):") :: c.body.flatMap
          (·.lines transport) := by
  have hconstructor : (if c.bases.isEmpty then [ClassPart.constructor "url" "str"] else []).flatMap
      (·.lines transport) = if c.bases.isEmpty then
        ["", "    def __init__(self, transport: " ++ transport ++ ", url: str):",
          "        self._transport = transport", "        self._url = url"] else [] := by
    split <;> rfl
  have hpass : (if !c.bases.isEmpty && c.isEmpty then [ClassPart.pass] else []).flatMap
      (·.lines transport) =
      if !c.bases.isEmpty && c.isEmpty then ["    pass"] else [] := by
    split <;> rfl
  rw [lines, body]
  simp only [List.flatMap_append, flatMap_docstring, hconstructor, hpass]
  simp only [List.flatMap_map]
  rfl

/-- The lines of the entry class are its first line and those of the parts of its body. -/
theorem ClientText.entryLines_eq (c : ClientText) :
    c.entryLines =
      ("class " ++ c.entry.name ++ ":") :: c.entry.body.flatMap (·.lines c.transport) := by
  rw [entryLines, EntryClass.body]
  simp only [List.flatMap_append, List.flatMap_map]
  rfl

/-- A class has a body: without anything of its own it has a constructor, or else a base and a line
that says so. -/
theorem ClassText.body_ne_nil (c : ClassText) : c.body ≠ [] := by
  intro hnil
  simp only [body, List.append_eq_nil_iff, List.map_eq_nil_iff] at hnil
  obtain ⟨⟨⟨⟨⟨hdoc, hbases⟩, hnested⟩, hoperations⟩, haccessors⟩, hpass⟩ := hnil
  by_cases hinherits : c.bases.isEmpty = true
  · rw [if_pos hinherits] at hbases
    exact absurd hbases (List.cons_ne_nil _ _)
  · have hempty : c.isEmpty = true := by
      simp only [isEmpty, hnested, hoperations, haccessors, List.isEmpty_nil, Bool.and_true,
        Option.isNone_iff_eq_none]
      exact Option.toList_eq_nil_iff.1 hdoc
    rw [hempty, Bool.and_true, if_pos (by simpa using hinherits)] at hpass
    exact absurd hpass (List.cons_ne_nil _ _)

/-- The lines of a model after the first. -/
def ModelText.body (m : ModelText) : List String :=
  (if (docLines 4 m.doc).isEmpty then [] else docLines 4 m.doc ++ [""]) ++
    ["    model_config = ConfigDict(populate_by_name=True)", ""] ++
      m.fields.map ("    " ++ ·.source) ++
    m.follows.flatMap HelperText.lines

/-- The source of a model is its first line and those of its body. -/
theorem ModelText.source_eq (m : ModelText) :
    m.source = trimmed (unlines (("class " ++ m.name ++ "(BaseModel):") :: m.body)) := by
  simp only [source, body, List.append_assoc, List.cons_append, List.nil_append]

/-- The texts of a client in which each class has a body, and documentation stands between
quotes. -/
structure ClientText.Filled (c : ClientText) : Prop where
  enums : ∀ e ∈ c.enums, e.members ≠ []
  models : ∀ m ∈ c.models ++ c.classes.flatMap (·.nested), m.body ≠ []
  classes : ∀ cls ∈ c.classes, cls.body ≠ [] ∧ ∀ text, .docstring text ∈ cls.body → IsDocstring text
  entry : c.entry.body ≠ [] ∧ ∀ text, .docstring text ∈ c.entry.body → IsDocstring text

/-! ## What is built has bodies -/

/-- Enums that are added have members. -/
theorem addEnum_members {context : String} {t t' : TypeTable} {p : Param}
    (ht : ∀ e ∈ t.enums, e.members ≠ []) (h : Unify.addEnum context t p = .ok t') :
    ∀ e ∈ t'.enums, e.members ≠ [] := by
  rcases addEnum_cases h with ⟨rfl, -⟩ | ⟨hoptions, scope, e, -, hvalues, -, rfl⟩
  · exact ht
  · refine List.forall_mem_append.2 ⟨ht, List.forall_mem_singleton.2 fun hnil => hoptions ?_⟩
    rw [EnumType.values, hnil, List.map_nil] at hvalues
    exact List.map_eq_nil_iff.1 hvalues.symm

/-- Each enum has a member. -/
theorem unify_members {table : TypeTable} (h : Yields (unify r config) table) :
    ∀ e ∈ table.enums, e.members ≠ [] := by
  obtain ⟨scope, hcollect⟩ := unify_collects h
  exact collectEnums_keeps (fun t => ∀ e ∈ t.enums, e.members ≠ []) (fun _ => True)
    (fun _ _ => trivial) (fun _ _ => ⟨trivial, fun _ => trivial⟩)
      (fun _ _ _ _ _ ht h => addEnum_members ht h)
    (List.forall_mem_nil _) hcollect

namespace Build

variable {env : Env}

/-- Documentation that is asked for is written as a docstring. -/
theorem docOf_isDocstring {docs : List Doc} {doc : Option String}
    (h : Yields (docOf env docs) doc) : ∀ text, doc = some text → IsDocstring text := by
  obtain ⟨doc', halways, hdoc⟩ := exists_docOf env docs
  obtain ⟨s, t, h⟩ := h
  obtain ⟨u, h'⟩ := halways s
  obtain rfl := Except.ok.inj (Prod.mk.inj (h.symm.trans h')).1
  exact hdoc

theorem resourceClass_isDocstring {c : Container} {cls : ResourceClass}
    (h : Yields (resourceClass env c) cls) : ∀ text, cls.doc = some text → IsDocstring text := by
  unfold resourceClass at h
  obtain ⟨name, -, h⟩ := h.bind
  obtain ⟨bases, -, h⟩ := h.bind
  obtain ⟨nested, -, h⟩ := h.bind
  obtain ⟨methods, -, h⟩ := h.bind
  obtain ⟨⟨ops, scope⟩, -, h⟩ := h.bind
  obtain ⟨accessors, -, h⟩ := h.bind
  obtain ⟨doc, hdoc, h⟩ := h.bind
  rw [← h.pure]
  exact docOf_isDocstring hdoc

theorem entryClass_isDocstring {c : EntryClass} (h : Yields (entryClass env) c) :
    IsDocstring c.doc := by
  unfold entryClass at h
  obtain ⟨accessors, -, h⟩ := h.bind
  obtain ⟨doc, hdoc, h⟩ := h.bind
  rw [← h.pure]
  cases doc with
  | none => exact ⟨"Entry point for the described web application.", rfl⟩
  | some text => exact docOf_isDocstring hdoc text rfl

end Build

open Build in
/-- The classes that are built have documentation between quotes, if they have any. -/
theorem buildModule_isDocstring {table : TypeTable} {m : ClientModule}
    (h : Yields (buildModule r table config) m) :
    m.enums = table.enums ∧ (∀ c ∈ m.classes, ∀ text, c.doc = some text → IsDocstring text) ∧
      IsDocstring m.entry.doc := by
  unfold buildModule at h
  obtain ⟨classNames, -, h⟩ := h.bind
  obtain ⟨doc, -, h⟩ := h.bind
  obtain ⟨models, -, h⟩ := h.bind
  obtain ⟨classes, hclasses, h⟩ := h.bind
  obtain ⟨entry, hentry, h⟩ := h.bind
  rw [← h.pure]
  refine ⟨rfl, fun c hc => ?_, entryClass_isDocstring hentry⟩
  obtain ⟨container, -, hcontainer⟩ := hclasses.mem_mapM hc
  exact resourceClass_isDocstring hcontainer

/-- What is laid out for a client with its types has a body in each class. -/
theorem clientText_filled {text : ClientText} (h : Yields (clientText r config) text) :
    text.Filled := by
  unfold clientText at h
  obtain ⟨table, htable, h⟩ := h.bind
  obtain ⟨m, hm, h⟩ := h.bind
  obtain rfl := h.pure
  obtain ⟨henums, hclasses, hentry⟩ := buildModule_isDocstring hm
  refine ⟨fun e he => unify_members htable e (henums ▸ he), fun m _ => ?_, fun cls hcls => ?_, ?_⟩
  · simp [ModelText.body]
  · obtain ⟨c, hc, rfl⟩ := List.mem_map.1 hcls
    refine ⟨ClassText.body_ne_nil _, fun text htext => hclasses c hc text ?_⟩
    simpa [ClassText.body, ResourceClass.text] using htext
  · refine ⟨List.cons_ne_nil _ _, fun text htext => ?_⟩
    obtain rfl : text = m.text.entry.doc := by simpa [EntryClass.body] using htext
    exact hentry

/-! ## Both clients -/

/-- The types of a client and their names do not depend on its documentation. -/
theorem unify_withDocs : unify r (config.withDocs includeDocs skipCode) = unify r config :=
  unify_restyled

/-- The types of a client do not depend on what was told before. -/
theorem unify_alike : Alike Eq (unify r config) (unify r config) := by
  unfold unify
  refine (Alike.lift_self _).bind fun groups _ => ?_
  rintro rfl
  refine (Alike.lift_self _).bind ?_
  rintro ⟨scope, declared⟩ _ rfl
  refine (Alike.mapM (fun _ => .lift_self _) groups).bind fun types types' htypes => ?_
  obtain rfl := List.forall₂_eq_eq_eq ▸ htypes
  exact Alike.modify.bind fun _ _ _ => .lift_self _

/-- Two clients of a description that differ only in whether they have documentation, and code in
it, cannot be built for the same reason; otherwise their texts are the same but for the
documentation. In the texts of each, every class has a body, and the documentation of a class stands
between quotes. -/
theorem clientText_withDocs (r : Resolution) (config : ClientConfig) (includeDocs skipCode : Bool) :
    Alike (fun text text' => text.undocumented = text'.undocumented)
      (clientText r (config.withDocs includeDocs skipCode)) (clientText r config) ∧
    ∀ text, Yields (clientText r config) text → text.Filled := by
  refine ⟨?_, fun text h => clientText_filled h⟩
  simp only [clientText, unify_withDocs]
  refine unify_alike.bind fun table _ => ?_
  rintro rfl
  refine (buildModule_alike table).bind fun m m' hm => .pure ?_
  rw [ClientModule.text_undocumented, ClientModule.text_undocumented, hm]

/-- A description of a resource that has nothing of its own but a type and documentation. -/
def documentedShelf : Application :=
  let listed : Reference := ⟨.resourceType, "http://h/d#listed", ""⟩
  let doc : Doc := ⟨none, none, "All <code>shelves</code>.", none⟩
  ⟨"http://h/d", [], [],
    [⟨some "http://h/", [⟨none, some "shelves", [listed], formMediaType, [], [], [], [doc]⟩]⟩],
    [⟨"listed", formMediaType, [], [], [], []⟩], [], [], []⟩

/-- A description with documentation makes the same client with and without it, apart from it. -/
theorem clientText_withDocs_documentedShelf :
    let w : Web := ⟨documentedShelf, none, false⟩
    ∃ r n text text' t t', Gives (resolveWith w.loading w.strict 1 w.app) [] r n ∧
      Gives (clientText r (({} : ClientConfig).withDocs false false)) [] text t ∧
      Gives (clientText r {}) [] text' t' ∧ text.undocumented = text'.undocumented ∧ text'.Filled ∧
      text.classes.map (·.doc) = [none, none] ∧
      text'.classes.map (·.doc) = [none, some "\"\"\"All `shelves`.\"\"\""] := by
  intro w
  let withDocs (text : ClientText) : Bool :=
    text.classes.map (·.doc) = [none, some "\"\"\"All `shelves`.\"\"\""]
  let withoutDocs (text : ClientText) : Bool := text.classes.map (·.doc) = [none, none]
  obtain ⟨r, n, hr, hboth⟩ :=
    exists_gives_of_any (x := resolveWith w.loading w.strict 1 w.app) (s := []) (p := fun r =>
      (Id.run ((clientText r (({} : ClientConfig).withDocs false false)).run.run [])).1.toOption.any
        withoutDocs && (Id.run ((clientText r {}).run.run [])).1.toOption.any withDocs)
    (by decide +kernel)
  obtain ⟨hwithout, hwith⟩ := Bool.and_eq_true_iff.1 hboth
  obtain ⟨text, t, htext, hdoc⟩ := exists_gives_of_any hwithout
  obtain ⟨text', t', htext', hdoc'⟩ := exists_gives_of_any hwith
  obtain ⟨halike, hfilled⟩ := clientText_withDocs r {} false false
  exact ⟨r, n, text, text', t, t', hr, htext, htext', halike.related htext htext',
    hfilled text' htext'.yields, of_decide_eq_true hdoc, of_decide_eq_true hdoc'⟩

end Wadl
