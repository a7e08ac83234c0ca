import Wadl.Proofs.Client.Capture
import Wadl.Proofs.Client.Enums

/-!
# Overrides of the types of merged params

Representations share a type if their params have the same keys, and a key has just the local name
of a declared type, while an override may be given for the full name. The fields of a shared type
are made of the params of one member. So a param has in it the type that it would have on its own
just if the overrides say the same of its declared type and of that of the param that was taken
(`merged_type_iff`), as they do if they are given for local names only (`sourceTypeOf_congr`).
-/

namespace Wadl

open Unify

/-! ## Overrides of local names -/

theorem localTypeName_eq_self {type : String} (h : ':' ∉ type.toList) :
    localTypeName type = type := by
  have hall : ∀ c ∈ type.toList.reverse, (c != ':') = true := by
    intro c hc
    rw [bne_iff_ne]
    exact ne_of_mem_of_not_mem (List.mem_reverse.1 hc) h
  rw [localTypeName, List.takeWhile_eq_self_iff.2 hall, List.reverse_reverse, String.ofList_toList]

/-- Where only local names are overridden, the local name of a declared type decides. -/
theorem sourceTypeOf_local {overrides : List (String × String)}
    (hlocal : ∀ o ∈ overrides, ':' ∉ o.1.toList) (type : String) :
    sourceTypeOf overrides type = (overrides.lookup (localTypeName type)).or
      ((schemaTypes.lookup (localTypeName type)).map (·.sourceType)) := by
  have hfallback : (overrides.lookup type).or (overrides.lookup (localTypeName type)) =
      overrides.lookup (localTypeName type) := by
    by_cases hcolon : ':' ∈ type.toList
    · have hnone : overrides.lookup type = none := by
        rw [Option.eq_none_iff_forall_ne_some]
        intro text htext
        exact hlocal _ (mem_of_lookup htext) hcolon
      rw [hnone, Option.none_or]
    · rw [localTypeName_eq_self hcolon, Option.or_self]
  rw [← hfallback, sourceTypeOf]
  cases overrides.lookup type <;> cases overrides.lookup (localTypeName type) <;> rfl

/-- Declared types with one local name have one type in generated source if only local names are
overridden. -/
theorem sourceTypeOf_congr {overrides : List (String × String)} {a b : String}
    (hlocal : ∀ o ∈ overrides, ':' ∉ o.1.toList) (h : localTypeName a = localTypeName b) :
    sourceTypeOf overrides a = sourceTypeOf overrides b := by
  rw [sourceTypeOf_local hlocal, sourceTypeOf_local hlocal, h]

/-! ## Fields of a type -/

/-- The fields of a type are the params of one of its members, and all its members have its
signature. -/
theorem unify_fields {r : Resolution} {config : ClientConfig} {table : TypeTable}
    (h : Yields (unify r config) table) {c : CanonicalType} (hc : c ∈ table.types)
    {m : Placed Representation} (hm : m ∈ c.members) :
    r.signature m.value.params = .ok c.signature ∧ ∃ first ∈ c.members,
      first.value.params.mapM r.param = .ok c.fields := by
  obtain ⟨groups, names, hgroups, htypes⟩ := unify_groups h
  obtain ⟨visited, -, hgrouped⟩ := grouped_groupsOf hgroups
  obtain ⟨g, hg, hgc⟩ := exists_left_of_forall₂ htypes hc
  obtain ⟨hbelongs, -⟩ := Group.type_ok hgc
  rw [hbelongs.members] at hm ⊢
  refine ⟨hbelongs.signature ▸ (hgrouped.signed g hg m hm).2, ?_⟩
  obtain ⟨fields, hfields, hgc⟩ := Result.bind_ok.1 hgc
  rw [← Result.pure_ok.1 hgc]
  cases hg : g.members with
  | nil => rw [hg] at hm; cases hm
  | cons first rest =>
    rw [hg] at hfields
    exact ⟨first, List.mem_cons_self, Result.mapError_ok.1 hfields⟩

namespace Build

variable {env : Env}

theorem modelField_base {p : Param} {name source : String} {type : ValueType} {field : ModelField}
    (h : modelField env p name type source = .ok field) : field.shape.base = type := by
  unfold modelField at h
  simp only at h
  split at h
  · rw [← Result.pure_ok.1 h]
  · split at h
    · obtain ⟨v, -, h⟩ := Result.bind_ok.1 h
      rw [← Result.pure_ok.1 h]
    · rw [← Result.pure_ok.1 h]

/-- Each field of a model has the name on the wire of a param and the type of its values. -/
theorem modelFields_types {owner : String} {ps : List Param} {scope : NameScope}
    {fields : List ModelField} {follows : List FollowHelper}
    (h : modelFields env owner scope ps = .ok (fields, follows)) :
    List.Forall₂ (fun p f => f.wire = p.name ∧ ∃ source, valueType env p source = .ok f.shape.base)
      ps fields := by
  induction ps generalizing scope fields follows with
  | nil =>
    obtain ⟨rfl, -⟩ := Prod.mk.inj (Except.ok.inj h)
    exact .nil
  | cons p rest ih =>
    rw [modelFields] at h
    obtain ⟨⟨name, scope₁⟩, -, h⟩ := Result.bind_ok.1 h
    obtain ⟨type, htype, h⟩ := Result.bind_ok.1 h
    obtain ⟨field, hfield, h⟩ := Result.bind_ok.1 h
    obtain ⟨⟨helpers, scope₂⟩, -, h⟩ := Result.bind_ok.1 h
    obtain ⟨⟨fields', more⟩, hrest, h⟩ := Result.bind_ok.1 h
    obtain ⟨rfl, -⟩ := Prod.mk.inj (Result.pure_ok.1 h)
    exact .cons ⟨modelField_wireName hfield, _, (modelField_base hfield).symm ▸ htype⟩ (ih hrest)

/-- A model has no two fields with one name on the wire. -/
theorem eq_of_wire_eq {c : CanonicalType} {model : ModelClass} (h : Yields (modelClass env c) model)
    {f f' : ModelField} (hf : f ∈ model.fields) (hf' : f' ∈ model.fields)
    (hwire : f.wire = f'.wire) : f = f' := by
  have hspelled := modelFields_spelled (by rfl) (modelClass_yields h).2
  refine List.inj_on_of_nodup_map (List.nodup_append.1 (modelClass_nodup h).1).1 hf hf' ?_
  rw [hspelled f hf, hspelled f' hf', hwire]

end Build

/-! ## Params on their own -/

/-- The type of the values of a param without options on its own, if there is one. -/
def Param.ownType? (overrides : List (String × String)) (p : Param) : Option ValueType :=
  (sourceTypeOf overrides p.type).map .written

/-- The params of the members of a type have the keys of its fields, in any order, provided that
SHA-1 tells the texts of these apart. -/
theorem keys_perm_of_member {r : Resolution} {config : ClientConfig} {table : TypeTable}
    (h : Yields (unify r config) table) {c : CanonicalType} (hc : c ∈ table.types)
    {m : Placed Representation} (hm : m ∈ c.members) {fs : List Field}
    (hfs : r.fields m.value.params = .ok fs)
    (hsha : Separates (hashedText (c.fields.map Field.ofParam)) (hashedText fs)) :
    (c.fields.map FieldKey.ofParam).Perm (fs.map Field.key) := by
  obtain ⟨hsigned, first, hfirst, hfields⟩ := unify_fields h hc hm
  obtain ⟨hsignedFirst, -⟩ := unify_fields h hc hfirst
  obtain ⟨fs', hfs', hsignature⟩ := signature_eq hsigned
  obtain ⟨gs, hgs, hsignatureFirst⟩ := signature_eq hsignedFirst
  obtain rfl := Except.ok.inj (hfs.symm.trans hfs')
  obtain rfl : c.fields.map Field.ofParam = gs :=
    Except.ok.inj ((Result.map_ok.2 ⟨c.fields, hfields, rfl⟩).symm.trans hgs)
  have hperm := FieldKey.listText_eq_iff.1 (hsha (hsignatureFirst.symm.trans hsignature))
  rwa [Field.keys_ofParam] at hperm

open Build in
/-- A param has the type on its own that the values of another param have if that has no options,
and the overrides make one type of the declared types of both. -/
theorem ownType?_eq_iff {env : Env} {p q : Param} {source : String} {type : ValueType}
    (htype : valueType env q source = .ok type)
    (henum : q.options ≠ [] → (env.table.enumFor? q).isSome = true) :
    p.ownType? env.config.overrides = some type ↔
      q.options = [] ∧ sourceTypeOf env.config.overrides p.type =
        sourceTypeOf env.config.overrides q.type := by
  unfold valueType at htype
  by_cases hoptions : q.options = []
  · have hnone : env.table.enumFor? q = none := if_pos (List.isEmpty_iff.2 hoptions)
    rw [hnone] at htype
    obtain ⟨text, htext, rfl⟩ := Result.map_ok.1 htype
    have hsource : sourceTypeOf env.config.overrides q.type = some text := by
      unfold mapType at htext
      split at htext
      · rwa [← Except.ok.inj htext]
      · cases htext
    rw [hsource, Param.ownType?, Option.map_eq_some_iff]
    constructor
    · rintro ⟨own, hown, hwritten⟩
      exact ⟨hoptions, hown.trans (congrArg some (ValueType.written.inj hwritten))⟩
    · rintro ⟨-, hown⟩
      exact ⟨text, hown, rfl⟩
  · obtain ⟨e, he⟩ := Option.isSome_iff_exists.1 (henum hoptions)
    rw [he] at htype
    rw [← Except.ok.inj htype, Param.ownType?, Option.map_eq_some_iff]
    constructor
    · rintro ⟨own, -, hwritten⟩
      cases hwritten
    · rintro ⟨hnil, -⟩
      exact absurd hnil hoptions

open Build in
/-- A param without options of a representation has in the shared type a field of its own name on
the wire, that was made of a param with the same key. The field has the type that the param would
have on its own if and only if the param it was made of has no options either and the overrides make
one type of the declared types of both; where no mark of the keys stands in the two params they do
so whenever they are given for local names only. -/
theorem merged_type_iff {env : Env} {s t : List Notice}
    (hu : Gives (unify env.resolution env.config) s env.table t) {c : CanonicalType}
    (hc : c ∈ env.table.types) {model : ModelClass} (hmodel : Yields (modelClass env c) model)
    {m : Placed Representation} (hm : m ∈ c.members) {fs : List Field}
    (hfs : env.resolution.fields m.value.params = .ok fs)
    (hsha : Separates (hashedText (c.fields.map Field.ofParam)) (hashedText fs)) {item : ParamItem}
    (hitem : item ∈ m.value.params) {p : Param} (hp : env.resolution.param item = .ok p)
    (hoptions : p.options = []) :
    ∃ q ∈ c.fields, FieldKey.ofParam q = FieldKey.ofParam p ∧ ∃ f ∈ model.fields,
      (∀ f' ∈ model.fields, f'.wire = p.name ↔ f' = f) ∧
      (p.ownType? env.config.overrides = some f.shape.base ↔
        q.options = [] ∧ sourceTypeOf env.config.overrides p.type =
          sourceTypeOf env.config.overrides q.type) ∧
      ((Field.ofParam p).IsPlain → (Field.ofParam q).IsPlain →
        (∀ o ∈ env.config.overrides, ':' ∉ o.1.toList) →
        p.ownType? env.config.overrides = some f.shape.base) := by
  -- the param has a key of the member's, which is that of a field
  obtain ⟨ps, hps, rfl⟩ := Result.map_ok.1 hfs
  have hpmem : p ∈ ps := (Result.mem_mapM_ok hps).2 ⟨item, hitem, hp⟩
  have hperm := keys_perm_of_member hu.yields hc hm hfs hsha
  rw [Field.keys_ofParam] at hperm
  obtain ⟨q, hq, hkey⟩ := List.mem_map.1 (hperm.mem_iff.2 (List.mem_map_of_mem hpmem))
  have hname : q.name = p.name := congrArg FieldKey.name hkey
  -- the field of the model that was made of it
  obtain ⟨f, hf, hwire, source, htype⟩ :=
    exists_right_of_forall₂ (modelFields_types (modelClass_yields hmodel).2) hq
  refine ⟨q, hq, hkey, f, hf, fun f' hf' => ⟨fun h => ?_, ?_⟩, ?_⟩
  · exact eq_of_wire_eq hmodel hf' hf (h.trans (hname.symm.trans hwire.symm))
  · rintro rfl
    exact hwire.trans hname
  have hiff := ownType?_eq_iff (p := p) htype (enumFor?_isSome hu.yields hc hq)
  refine ⟨hiff, fun hplain hplain' hlocal => hiff.2 ?_⟩
  have hsame : Field.ofParam q = Field.ofParam p := Field.key_injective hplain' hplain (by
    rw [Field.key_ofParam, Field.key_ofParam, hkey])
  have hvalues : q.options.map (·.value) = p.options.map (·.value) := congrArg Field.options hsame
  rw [hoptions, List.map_nil, List.map_eq_nil_iff] at hvalues
  exact ⟨hvalues, sourceTypeOf_congr hlocal (congrArg Field.type hsame).symm⟩

/-- A description of two representations that differ in the prefix of the type of their param. -/
def prefixedInts : Application :=
  let answer (id type : String) : Representation :=
    ⟨some id, some "application/json", none, none,
      [.inline { name := "p", style := .plain, type }], []⟩
  ⟨"http://h/d", [], [], [], [],
    [.inline (answer "first" "xs:int"), .inline (answer "second" "my:int")], [], []⟩

open Build in
theorem merged_type_iff_prefixedInts :
    let w : Web := ⟨prefixedInts, none, false⟩
    let config : ClientConfig := { overrides := [("my:int", "str")] }
    let p (type : String) : Param := { name := "p", style := .plain, type }
    ∃ r table t c m m' model f, Gives (resolveWith w.loading w.strict 0 w.app) [] r [] ∧
      Gives (unify r config) [] table t ∧ c ∈ table.types ∧ m ∈ c.members ∧ m' ∈ c.members ∧
      m.value.params = [.inline (p "xs:int")] ∧ m'.value.params = [.inline (p "my:int")] ∧
      Yields (modelClass ⟨r, table, config, [], []⟩ c) model ∧ model.fields = [f] ∧
      (p "xs:int").ownType? config.overrides = some f.shape.base ∧
      (p "my:int").ownType? config.overrides ≠ some f.shape.base := by
  intro w config p
  let r : Resolution := ⟨prefixedInts, [], [("http://h/d", prefixedInts)]⟩
  have hr : Gives (resolveWith w.loading w.strict 0 w.app) [] r [] := by rfl
  let build : Generating (TypeTable × List ModelClass) := do
    let table ← unify r config
    return (table, ← table.types.mapM (modelClass ⟨r, table, config, [], []⟩))
  let isExpected (x : TypeTable × List ModelClass) : Bool :=
    x.1.types.map (fun c => (c.fields, c.members.map (·.value.params))) =
      [([p "xs:int"], [[.inline (p "xs:int")], [.inline (p "my:int")]])] ∧
      x.2.map (·.fields.length) = [1]
  obtain ⟨⟨table, models⟩, t', hbuild, hexpected⟩ :=
    exists_gives_of_any (x := build) (s := []) (p := isExpected) (by decide +kernel)
  obtain ⟨_, t, hu, hrest⟩ := gives_bind.1 hbuild
  obtain ⟨_, u, hmodels, hpure⟩ := gives_bind.1 hrest
  obtain ⟨rfl, rfl⟩ := Prod.mk.inj (gives_pure.1 hpure).1.symm
  obtain ⟨htypes, hlengths⟩ := of_decide_eq_true hexpected
  -- there is one type with two members, and one model of one field
  obtain ⟨c, hc, hshape⟩ := List.map_eq_singleton_iff.1 htypes
  obtain ⟨hfields, hmembers⟩ := Prod.mk.inj hshape
  obtain ⟨m, _, hmm, hm, hrest⟩ := List.map_eq_cons_iff.1 hmembers
  obtain ⟨m', rfl, hm'⟩ := List.map_eq_singleton_iff.1 hrest
  have hall := hmodels.yields.mapM
  rw [hc] at hall
  obtain ⟨model, _, hmodel, hnil, rfl⟩ := List.forall₂_cons_left_iff.1 hall
  obtain rfl := List.forall₂_nil_left_iff.1 hnil
  obtain ⟨f, hf⟩ := List.length_eq_one_iff.1 (List.cons.inj hlengths).1
  have hcmem : c ∈ table.types := by rw [hc]; exact List.mem_singleton_self c
  have hmem : m ∈ c.members ∧ m' ∈ c.members := by simp [hmm]
  have htwo : ∀ {m : Placed Representation} {type : String},
      m ∈ c.members → m.value.params = [.inline (p type)] →
      localTypeName type = "int" → ((p type).ownType? config.overrides = some f.shape.base ↔
        sourceTypeOf config.overrides type = some "int") := by
    intro m type hmem hparams hlocal
    have hfs : r.fields m.value.params = .ok [Field.ofParam (p type)] := by rw [hparams]; rfl
    have hsame : Field.ofParam (p type) = Field.ofParam (p "xs:int") := by
      have hint : localTypeName "xs:int" = "int" := by decide
      show (⟨"p", localTypeName type, [], [], false, false⟩ : Field) =
        ⟨"p", localTypeName "xs:int", [], [], false, false⟩
      rw [hlocal, hint]
    have hsha : Separates (hashedText (c.fields.map Field.ofParam))
        (hashedText [Field.ofParam (p type)]) := by
      rw [hfields, List.map_singleton, hsame]
      exact fun _ => rfl
    have hitem : ParamItem.inline (p type) ∈ m.value.params := by simp [hparams]
    obtain ⟨q, hq, -, f', hf', -, hiff, -⟩ :=
      @merged_type_iff ⟨r, table, config, [], []⟩ _ _ hu c hcmem model hmodel m
      hmem _ hfs hsha _ hitem _ rfl rfl
    rw [hf, List.mem_singleton] at hf'
    rw [hfields, List.mem_singleton] at hq
    rw [hf', hq] at hiff
    have hint : sourceTypeOf config.overrides "xs:int" = some "int" := by decide
    exact hiff.trans ⟨fun h => h.2.trans hint, fun h => ⟨rfl, h.trans hint.symm⟩⟩
  refine ⟨r, table, t, c, m, m', model, f, hr, hu, hcmem, hmem.1, hmem.2, hm, hm',
    hmodel, hf, ?_, ?_⟩
  · exact (htwo hmem.1 hm rfl).2 (by decide)
  · exact fun h => absurd ((htwo hmem.2 hm' rfl).1 h) (by decide)

end Wadl
